import Rpi3Bench.Library.Transition

/-!
# Standard output across forks

A process prints into a buffer, which is written out when the buffering mode
asks for it and when the process exits.  A fork gives the child a copy of what
is in the buffer at that moment; a vfork lets it use its parent's.
-/

namespace ForkedOutput

open Transition

abbrev Text := List Char

inductive Mode
  | unbuffered
  | line (capacity : ℕ)
  | full (capacity : ℕ)
  deriving DecidableEq

/-- Whether `c`, after the characters already buffered, has the buffer written out. -/
def Mode.writesOut (m : Mode) (buffered : Text) (c : Char) : Bool :=
  match m with
  | .unbuffered => true
  | .line capacity => c == '\n' || capacity ≤ buffered.length + 1
  | .full capacity => capacity ≤ buffered.length + 1

/-- What has reached standard output, and what one process still buffers. -/
structure Stream where
  written : Text
  buffered : Text
  deriving DecidableEq

namespace Stream

def putc (m : Mode) (s : Stream) (c : Char) : Stream :=
  if m.writesOut s.buffered c then ⟨s.written ++ (s.buffered ++ [c]), []⟩
  else ⟨s.written, s.buffered ++ [c]⟩

def print (m : Mode) (s : Stream) (text : Text) : Stream := text.foldl (putc m) s

def flush (s : Stream) : Stream := ⟨s.written ++ s.buffered, []⟩

/-- All the text of a stream, written or not. -/
def total (s : Stream) : Text := s.written ++ s.buffered

@[simp] theorem total_flush (s : Stream) : s.flush.total = s.total := by
  simp [total, flush]

theorem total_putc (m : Mode) (s : Stream) (c : Char) : (s.putc m c).total = s.total ++ [c] := by
  unfold putc total
  split_ifs <;> simp

/-- Whatever the mode, printing adds the text to the end. -/
@[simp] theorem total_print (m : Mode) (s : Stream) (text : Text) :
    (s.print m text).total = s.total ++ text := by
  induction text generalizing s with
  | nil => simp [print]
  | cons c rest ih =>
    change ((s.putc m c).print m rest).total = _
    rw [ih, total_putc, List.append_assoc]
    rfl

theorem print_append (m : Mode) (s : Stream) (a b : Text) :
    s.print m (a ++ b) = (s.print m a).print m b :=
  List.foldl_append

/-- What stays in the buffer does not depend on what has been written before. -/
theorem buffered_print_congr (m : Mode) {s s' : Stream} (h : s.buffered = s'.buffered)
    (text : Text) : (s.print m text).buffered = (s'.print m text).buffered := by
  induction text generalizing s s' with
  | nil => exact h
  | cons c rest ih =>
    change ((s.putc m c).print m rest).buffered = ((s'.putc m c).print m rest).buffered
    apply ih
    unfold putc
    rw [h]
    split_ifs <;> rfl

theorem buffered_print_unbuffered {s : Stream} (h : s.buffered = []) (text : Text) :
    (s.print .unbuffered text).buffered = [] := by
  induction text generalizing s with
  | nil => exact h
  | cons c rest ih => exact ih rfl

/-- Text that ends a line leaves nothing behind on a terminal. -/
theorem buffered_print_line (capacity : ℕ) (s : Stream) (text : Text) :
    (s.print (.line capacity) (text ++ ['\n'])).buffered = [] := by
  rw [print_append]
  simp [print, putc, Mode.writesOut]

/-- A buffer that is larger than its text keeps it. -/
theorem print_full {capacity : ℕ} {w b text : Text} (h : (b ++ text).length < capacity) :
    print (.full capacity) ⟨w, b⟩ text = ⟨w, b ++ text⟩ := by
  induction text generalizing b with
  | nil =>
    rw [List.append_nil]
    rfl
  | cons c text ih =>
    have hlength : (b ++ c :: text).length = b.length + 1 + text.length := by
      rw [List.length_append, List.length_cons]
      omega
    have hputc : putc (.full capacity) ⟨w, b⟩ c = ⟨w, b ++ [c]⟩ := by
      rw [putc, Mode.writesOut, if_neg (by rw [decide_eq_true_iff]; dsimp only; omega)]
    change print (.full capacity) (putc (.full capacity) ⟨w, b⟩ c) text = _
    rw [hputc, ih (by rw [List.append_assoc]; exact h), List.append_assoc]
    rfl

/-- In the other modes a text that ends its line is written out whole. -/
theorem print_line {m : Mode} (hm : ∀ capacity, m ≠ .full capacity) (w line : Text) :
    print m ⟨w, []⟩ (line ++ ['\n']) = ⟨w ++ (line ++ ['\n']), []⟩ := by
  have hbuffered : (print m ⟨w, []⟩ (line ++ ['\n'])).buffered = [] := by
    cases m with
    | unbuffered => exact buffered_print_unbuffered rfl _
    | line capacity => exact buffered_print_line capacity _ line
    | full capacity => exact absurd rfl (hm capacity)
  have htotal := total_print m ⟨w, []⟩ (line ++ ['\n'])
  rw [total, total, hbuffered, List.append_nil, List.append_nil] at htotal
  calc print m ⟨w, []⟩ (line ++ ['\n'])
      = ⟨(print m ⟨w, []⟩ (line ++ ['\n'])).written,
          (print m ⟨w, []⟩ (line ++ ['\n'])).buffered⟩ := rfl
    _ = ⟨w ++ (line ++ ['\n']), []⟩ := by rw [htotal, hbuffered]

end Stream

theorem append_ends_line (text last : String) (init : Text)
    (hlast : last.toList = init ++ ['\n']) : ∃ line, (text ++ last).toList = line ++ ['\n'] := by
  rw [String.toList_append, hlast, ← List.append_assoc]
  exact ⟨_, rfl⟩

/-- How a child ends: by `exit`, which writes its buffer out, or by `_exit`. -/
inductive Ending
  | exit
  | immediate
  deriving DecidableEq

/-- What the parent does.  The child of a fork or vfork prints nothing and ends;
`onError` is what the parent prints before it exits when there is no child, and
without it the parent carries on. -/
inductive Op
  | print (text : Text)
  | fork (child : Ending) (onError : Option Text)
  | vfork (child : Ending)
  | wait
  deriving DecidableEq

/-- A live child of a fork, with its copy of the buffer. -/
structure Child where
  buffered : Text
  ending : Ending
  deriving DecidableEq

/-- What a child will write. -/
def Child.owes (c : Child) : Text :=
  match c.ending with
  | .exit => c.buffered
  | .immediate => []

/-- `printed` is the text of the parent's own prints, and `copied` the number of
characters that forks have copied into children that write them out. -/
structure State where
  code : List Op
  stdout : Stream
  children : List Child
  exited : Bool
  printed : Text
  copied : ℕ
  deriving DecidableEq

inductive Label
  | print
  | forked
  | vforked
  | failed
  | wait
  | childExits (k : ℕ)
  | exits
  deriving DecidableEq

variable (m : Mode)

/-- One step of the parent or the end of one of its children. -/
def step (s : State) (l : Label) : Option State :=
  match l, s.code with
  | .print, .print text :: rest =>
    some { s with
      code := rest
      stdout := s.stdout.print m text
      printed := s.printed ++ text }
  | .forked, .fork child _ :: rest =>
    let c : Child := ⟨s.stdout.buffered, child⟩
    some { s with
      code := rest
      children := s.children ++ [c]
      copied := s.copied + c.owes.length }
  | .vforked, .vfork child :: rest =>
    -- the parent stands still until the child, which uses its buffer, has ended
    some { s with
      code := rest
      stdout := if child = .exit then s.stdout.flush else s.stdout }
  | .failed, .fork _ none :: rest => some { s with code := rest }
  | .failed, .fork _ (some text) :: _ => some { s with code := [.print text] }
  | .failed, .vfork _ :: rest => some { s with code := rest }
  | .wait, .wait :: rest => if s.children = [] then some { s with code := rest } else none
  | .childExits k, _ =>
    s.children[k]?.map fun c =>
      { s with
        children := s.children.eraseIdx k
        stdout := { s.stdout with written := s.stdout.written ++ c.owes } }
  | .exits, [] =>
    if s.exited then none else some { s with stdout := s.stdout.flush, exited := true }
  | _, _ => none

/-- A run from the start of `code`, with `buffered` not yet written. -/
def start (code : List Op) (written buffered : Text) : State where
  code := code
  stdout := ⟨written, buffered⟩
  children := []
  exited := false
  printed := written ++ buffered
  copied := 0

/-- The parent and all its children have ended. -/
def Final (s : State) : Prop := s.exited = true ∧ s.children = []

/-- What a step can do.  `skip` is a fork that failed without further notice, or
a wait that is over, and `givesUp` a failed fork that ends the parent. -/
inductive Effect (s : State) : Label → State → Prop
  | print {text : Text} {rest : List Op} (hcode : s.code = .print text :: rest) :
    Effect s .print { s with
      code := rest
      stdout := s.stdout.print m text
      printed := s.printed ++ text }
  | forked {child : Ending} {onError : Option Text} {rest : List Op}
      (hcode : s.code = .fork child onError :: rest) :
    Effect s .forked { s with
      code := rest
      children := s.children ++ [⟨s.stdout.buffered, child⟩]
      copied := s.copied + (Child.mk s.stdout.buffered child).owes.length }
  | vforked {child : Ending} {rest : List Op} (hcode : s.code = .vfork child :: rest) :
    Effect s .vforked { s with
      code := rest
      stdout := if child = .exit then s.stdout.flush else s.stdout }
  | skip {l : Label} {op : Op} {rest : List Op} (hcode : s.code = op :: rest) :
    Effect s l { s with code := rest }
  | givesUp {op : Op} {text : Text} {rest : List Op} (hcode : s.code = op :: rest) :
    Effect s .failed { s with code := [.print text] }
  | childExits {k : ℕ} {c : Child} (hk : s.children[k]? = some c) :
    Effect s (.childExits k) { s with
      children := s.children.eraseIdx k
      stdout := { s.stdout with written := s.stdout.written ++ c.owes } }
  | exits (hcode : s.code = []) :
    Effect s .exits { s with stdout := s.stdout.flush, exited := true }

variable {m} in
theorem step_effect {s t : State} {l : Label} (h : step m s l = some t) : Effect m s l t := by
  unfold step at h
  split at h
  case h_1 hcode =>
    cases h
    exact .print hcode
  case h_2 hcode =>
    cases h
    exact .forked hcode
  case h_3 hcode =>
    cases h
    exact .vforked hcode
  case h_5 hcode =>
    cases h
    exact .givesUp hcode
  case h_7 hcode =>
    split_ifs at h
    cases h
    exact .skip hcode
  case h_8 =>
    obtain ⟨c, hk, rfl⟩ := Option.map_eq_some_iff.1 h
    exact .childExits hk
  case h_9 hcode =>
    split_ifs at h
    cases h
    exact .exits hcode
  case h_10 => cases h
  all_goals
    rename_i hcode
    cases h
    exact .skip hcode

def owed (children : List Child) : ℕ := (children.map fun c => c.owes.length).sum

theorem owed_append (cs : List Child) (c : Child) : owed (cs ++ [c]) = owed cs + c.owes.length := by
  simp [owed]

theorem owed_eraseIdx {cs : List Child} {k : ℕ} {c : Child} (h : cs[k]? = some c) :
    c.owes.length + owed (cs.eraseIdx k) = owed cs := by
  obtain ⟨hk, rfl⟩ := List.getElem?_eq_some_iff.1 h
  have hperm := (List.getElem_cons_eraseIdx_perm hk).map fun c => c.owes.length
  have hsum := hperm.sum_eq
  rwa [List.map_cons, List.sum_cons] at hsum

/-- Every character is accounted for, and without copies the output is the
parent's own. -/
structure Balanced (s : State) : Prop where
  size : s.stdout.total.length + owed s.children = s.printed.length + s.copied
  own : s.copied = 0 → s.stdout.total = s.printed
  done : s.exited = true → s.code = [] ∧ s.stdout.buffered = []

theorem balanced_start (code : List Op) (written buffered : Text) :
    Balanced (start code written buffered) where
  size := rfl
  own _ := rfl
  done h := absurd h Bool.false_ne_true

variable {m} {s t : State} {l : Label} {ls : List Label}

theorem Balanced.not_exited {op : Op} {rest : List Op} (hs : Balanced s)
    (hcode : s.code = op :: rest) : s.exited ≠ true := by
  intro hexited
  rw [(hs.done hexited).1] at hcode
  exact List.cons_ne_nil _ _ hcode.symm

/-- Moving on in the code changes no text. -/
theorem Balanced.skip {op : Op} {rest : List Op} (hs : Balanced s) (hcode : s.code = op :: rest)
    (code : List Op) : Balanced { s with code := code } where
  size := hs.size
  own := hs.own
  done h := absurd h (hs.not_exited hcode)

theorem Balanced.print {text : Text} {rest : List Op} (hs : Balanced s)
    (hcode : s.code = .print text :: rest) :
    Balanced { s with
      code := rest
      stdout := s.stdout.print m text
      printed := s.printed ++ text } where
  size := by
    have hsize := hs.size
    simp only [Stream.total_print, List.length_append]
    omega
  own h := by
    show (s.stdout.print m text).total = s.printed ++ text
    rw [Stream.total_print, hs.own h]
  done h := absurd h (hs.not_exited hcode)

theorem Balanced.forked {child : Ending} {onError : Option Text} {rest : List Op} (hs : Balanced s)
    (hcode : s.code = .fork child onError :: rest) (c : Child) :
    Balanced { s with
      code := rest
      children := s.children ++ [c]
      copied := s.copied + c.owes.length } where
  size := by
    show s.stdout.total.length + owed (s.children ++ [c]) =
      s.printed.length + (s.copied + c.owes.length)
    rw [owed_append, ← Nat.add_assoc, hs.size, Nat.add_assoc]
  own h := hs.own (Nat.eq_zero_of_add_eq_zero_right h)
  done h := absurd h (hs.not_exited hcode)

theorem Balanced.vforked {child : Ending} {rest : List Op} (hs : Balanced s)
    (hcode : s.code = .vfork child :: rest) :
    Balanced { s with
      code := rest
      stdout := if child = .exit then s.stdout.flush else s.stdout } where
  size := by
    show (if child = .exit then s.stdout.flush else s.stdout).total.length + _ = _
    rw [apply_ite Stream.total, Stream.total_flush, ite_self]
    exact hs.size
  own h := by
    show (if child = .exit then s.stdout.flush else s.stdout).total = _
    rw [apply_ite Stream.total, Stream.total_flush, ite_self]
    exact hs.own h
  done h := absurd h (hs.not_exited hcode)

/-- A child that writes puts its text before what the parent still buffers; when
nothing was copied there is no such text. -/
theorem Balanced.childExits {k : ℕ} {c : Child} (hs : Balanced s) (hk : s.children[k]? = some c) :
    Balanced { s with
      children := s.children.eraseIdx k
      stdout := { s.stdout with written := s.stdout.written ++ c.owes } } where
  size := by
    have hsize := hs.size
    have howed := owed_eraseIdx hk
    simp only [Stream.total, List.length_append] at hsize ⊢
    omega
  own h := by
    have hsize := hs.size
    have howed := owed_eraseIdx hk
    have hnil : c.owes = [] := by
      rw [hs.own h, show s.copied = 0 from h] at hsize
      exact List.length_eq_zero_iff.1 (by omega)
    show s.stdout.written ++ c.owes ++ s.stdout.buffered = _
    rw [hnil, List.append_nil]
    exact hs.own h
  done := hs.done

theorem Balanced.exits (hs : Balanced s) (hcode : s.code = []) :
    Balanced { s with stdout := s.stdout.flush, exited := true } where
  size := by
    show s.stdout.flush.total.length + _ = _
    rw [Stream.total_flush]
    exact hs.size
  own h := by
    show s.stdout.flush.total = _
    rw [Stream.total_flush]
    exact hs.own h
  done _ := ⟨hcode, rfl⟩

theorem Balanced.next (hs : Balanced s) (h : step m s l = some t) : Balanced t := by
  cases step_effect h with
  | print hcode => exact hs.print hcode
  | forked hcode => exact hs.forked hcode _
  | vforked hcode => exact hs.vforked hcode
  | skip hcode => exact hs.skip hcode _
  | givesUp hcode => exact hs.skip hcode _
  | childExits hk => exact hs.childExits hk
  | exits hcode => exact hs.exits hcode

/-- After a whole run, standard output holds the parent's own text exactly when
no fork has copied any. -/
theorem output_eq_iff {code : List Op} {written buffered : Text}
    (h : run (step m) (start code written buffered) ls = some t) (ht : Final t) :
    t.stdout.written = t.printed ↔ t.copied = 0 := by
  have hb : Balanced t := run_invariant (fun _ => True) (fun _ _ _ _ hs => hs.next)
    (balanced_start code written buffered) (fun _ _ => trivial) h
  have hwritten : t.stdout.total = t.stdout.written := by
    rw [Stream.total, (hb.done ht.1).2, List.append_nil]
  constructor
  · intro heq
    have hsize := hb.size
    rw [hwritten, heq, ht.2] at hsize
    exact Nat.left_eq_add.1 hsize
  · intro h0
    rw [← hwritten]
    exact hb.own h0

/-! ## Where the copies come from -/

/-- An operation that copies no text into a child that would write it. -/
def Op.Quiet : Op → Prop
  | .fork .exit _ => False
  | _ => True

def Op.isFork : Op → Bool
  | .fork _ _ => true
  | _ => false

/-- The code left after a step. -/
theorem code_next (h : step m s l = some t) :
    (∃ done, s.code = done ++ t.code) ∨ ∃ text, t.code = [.print text] := by
  cases step_effect h with
  | print hcode => exact .inl ⟨[_], hcode⟩
  | forked hcode => exact .inl ⟨[_], hcode⟩
  | vforked hcode => exact .inl ⟨[_], hcode⟩
  | skip hcode => exact .inl ⟨[_], hcode⟩
  | givesUp => exact .inr ⟨_, rfl⟩
  | childExits => exact .inl ⟨[], rfl⟩
  | exits => exact .inl ⟨[], rfl⟩

theorem Op.forall_code_next {P : Op → Prop} (hprint : ∀ text, P (.print text))
    (hs : ∀ op ∈ s.code, P op) (h : step m s l = some t) : ∀ op ∈ t.code, P op := by
  intro op hop
  rcases code_next h with ⟨done, hcode⟩ | ⟨text, hcode⟩
  · apply hs
    rw [hcode]
    exact List.mem_append_right done hop
  · rw [hcode] at hop
    rw [List.mem_singleton.1 hop]
    exact hprint text

theorem copied_of_quiet (hs : ∀ op ∈ s.code, op.Quiet) (h : step m s l = some t) :
    t.copied = s.copied := by
  cases step_effect h with
  | @forked child onError rest hcode =>
    have hquiet := hs (.fork child onError) (by rw [hcode]; exact List.mem_cons_self)
    cases child with
    | exit => exact hquiet.elim
    | immediate => rfl
  | _ => rfl

/-- Code without forks of children that `exit` copies nothing. -/
theorem copied_run_of_quiet (hs : ∀ op ∈ s.code, op.Quiet) (h : run (step m) s ls = some t) :
    t.copied = s.copied := by
  have hinv : (∀ op ∈ t.code, op.Quiet) ∧ t.copied = s.copied := by
    apply run_invariant (fun _ => True) (P := fun u => (∀ op ∈ u.code, op.Quiet) ∧ u.copied = s.copied)
      _ ⟨hs, rfl⟩ (fun _ _ => trivial) h
    intro u l v _ ⟨hquiet, hu⟩ hstep
    exact ⟨Op.forall_code_next (fun _ => trivial) hquiet hstep,
      (copied_of_quiet hquiet hstep).trans hu⟩
  exact hinv.2

theorem not_forked (hs : ∀ op ∈ s.code, op.isFork = false) (h : step m s l = some t) :
    l ≠ .forked := by
  rintro rfl
  cases hcode : s.code with
  | nil =>
    simp [step, hcode] at h
  | cons op rest =>
    have hop := hs op (by rw [hcode]; exact List.mem_cons_self)
    cases op with
    | fork child onError => cases hop
    | _ => simp [step, hcode] at h

theorem forked_not_mem (hs : ∀ op ∈ s.code, op.isFork = false) (h : run (step m) s ls = some t) :
    .forked ∉ ls := by
  induction ls generalizing s with
  | nil => exact List.not_mem_nil
  | cons l ls ih =>
    obtain ⟨u, hu, ht⟩ := run_cons_eq_some.1 h
    rw [List.mem_cons, not_or]
    exact ⟨(not_forked hs hu).symm, ih (Op.forall_code_next (fun _ => rfl) hs hu) ht⟩

theorem Op.quiet_of_not_fork {op : Op} (h : op.isFork = false) : op.Quiet := by
  cases op with
  | fork child onError => cases h
  | _ => trivial

theorem copied_mono (h : step m s l = some t) : s.copied ≤ t.copied := by
  cases step_effect h with
  | forked => exact Nat.le_add_right _ _
  | _ => exact le_rfl

theorem copied_run_mono (h : run (step m) s ls = some t) : s.copied ≤ t.copied :=
  run_invariant (fun _ => True) (P := fun u => s.copied ≤ u.copied)
    (fun _ _ _ _ hle hstep => hle.trans (copied_mono hstep)) le_rfl (fun _ _ => trivial) h

/-- A step of a child: the parent is where it was. -/
structure ParentStill (s t : State) : Prop where
  code : t.code = s.code
  buffered : t.stdout.buffered = s.stdout.buffered
  copied : t.copied = s.copied

theorem step_print {text : Text} {rest : List Op} (hcode : s.code = .print text :: rest)
    (h : step m s l = some t) :
    (l = .print ∧ t.code = rest ∧ t.stdout = s.stdout.print m text ∧ t.copied = s.copied) ∨
      (l ≠ .forked ∧ ParentStill s t) := by
  cases l with
  | print =>
    simp only [step, hcode, Option.some.injEq] at h
    subst h
    exact .inl ⟨rfl, rfl, rfl, rfl⟩
  | childExits k =>
    obtain ⟨c, _, rfl⟩ := Option.map_eq_some_iff.1 (by simpa only [step] using h)
    exact .inr ⟨nofun, rfl, rfl, rfl⟩
  | _ => simp [step, hcode] at h

theorem step_fork {onError : Option Text} {rest : List Op}
    (hcode : s.code = .fork .exit onError :: rest) (h : step m s l = some t) :
    (l = .forked ∧ t.code = rest ∧ t.stdout = s.stdout ∧
        t.copied = s.copied + s.stdout.buffered.length) ∨
      (l = .failed ∧ t.stdout = s.stdout ∧ t.copied = s.copied ∧
        (t.code = rest ∨ ∃ text, t.code = [.print text])) ∨
      (l ≠ .forked ∧ ParentStill s t) := by
  cases l with
  | forked =>
    simp only [step, hcode, Option.some.injEq] at h
    subst h
    exact .inl ⟨rfl, rfl, rfl, rfl⟩
  | failed =>
    cases onError with
    | none =>
      simp only [step, hcode, Option.some.injEq] at h
      subst h
      exact .inr (.inl ⟨rfl, rfl, rfl, .inl rfl⟩)
    | some text =>
      simp only [step, hcode, Option.some.injEq] at h
      subst h
      exact .inr (.inl ⟨rfl, rfl, rfl, .inr ⟨text, rfl⟩⟩)
  | childExits k =>
    obtain ⟨c, _, rfl⟩ := Option.map_eq_some_iff.1 (by simpa only [step] using h)
    exact .inr (.inr ⟨nofun, rfl, rfl, rfl⟩)
  | _ => simp [step, hcode] at h

/-- In a row of forks whose children `exit`, with text in the buffer, the first
one that succeeds copies it. -/
theorem copied_forks_iff {onError : Option Text} {rest : List Op}
    (hrest : ∀ op ∈ rest, op.isFork = false) {n : ℕ}
    (hcode : s.code = List.replicate n (.fork .exit onError) ++ rest)
    (h : run (step m) s ls = some t) :
    t.copied = s.copied ↔ s.stdout.buffered = [] ∨ .forked ∉ ls := by
  -- once no fork is left nothing is copied any more
  have hquiet : ∀ {u ms}, (∀ op ∈ u.code, op.isFork = false) → run (step m) u ms = some t →
      t.copied = u.copied ∧ .forked ∉ ms := fun hu hrun =>
    ⟨copied_run_of_quiet (fun op hop => Op.quiet_of_not_fork (hu op hop)) hrun,
      forked_not_mem hu hrun⟩
  induction ls generalizing s n with
  | nil =>
    cases h
    simp
  | cons l ls ih =>
    obtain ⟨u, hu, ht⟩ := run_cons_eq_some.1 h
    cases n with
    | zero =>
      obtain ⟨heq, hnot⟩ := hquiet (by rwa [hcode]) h
      exact iff_of_true heq (.inr hnot)
    | succ n =>
      rcases step_fork hcode hu with ⟨rfl, hcode', hout, hcopied⟩ |
        ⟨rfl, hout, hcopied, hcode' | ⟨text, hcode'⟩⟩ | ⟨hl, hstill⟩
      · -- the fork succeeds and copies whatever is in the buffer
        have hmono := copied_run_mono ht
        constructor
        · intro heq
          rw [heq, hcopied] at hmono
          exact .inl (List.length_eq_zero_iff.1 (by omega))
        · rintro (hnil | hnot)
          · rw [(ih hcode' ht).2 (.inl (by rw [hout, hnil])), hcopied, hnil, List.length_nil,
              Nat.add_zero]
          · exact absurd List.mem_cons_self hnot
      · -- it fails, and the parent carries on with one fork less
        have hiff := ih hcode' ht
        rw [hcopied, hout] at hiff
        apply hiff.trans
        simp
      · -- it fails, and the parent only has its message left
        obtain ⟨heq, hnot⟩ := hquiet (by simp [hcode', Op.isFork]) ht
        exact iff_of_true (heq.trans hcopied) (.inr (by simpa using hnot))
      · have hiff := ih (hstill.code.trans hcode) ht
        rw [hstill.copied, hstill.buffered] at hiff
        apply hiff.trans
        simp [hl.symm]

/-- The same after some prints: what counts is the buffer at the first fork. -/
theorem copied_iff {onError : Option Text} {rest : List Op}
    (hrest : ∀ op ∈ rest, op.isFork = false) {n : ℕ} {prints : List Text}
    (hcode : s.code = prints.map .print ++ (List.replicate n (.fork .exit onError) ++ rest))
    (h : run (step m) s ls = some t) :
    t.copied = s.copied ↔ (s.stdout.print m prints.flatten).buffered = [] ∨ .forked ∉ ls := by
  induction ls generalizing s prints with
  | nil =>
    cases h
    simp
  | cons l ls ih =>
    cases prints with
    | nil => exact copied_forks_iff hrest hcode h
    | cons text prints =>
      obtain ⟨u, hu, ht⟩ := run_cons_eq_some.1 h
      rcases step_print hcode hu with ⟨rfl, hcode', hout, hcopied⟩ | ⟨hl, hstill⟩
      · have hiff := ih hcode' ht
        rw [hcopied, hout, ← Stream.print_append] at hiff
        apply hiff.trans
        simp
      · have hiff := ih (hstill.code.trans hcode) ht
        rw [hstill.copied, Stream.buffered_print_congr m hstill.buffered] at hiff
        apply hiff.trans
        simp [hl.symm]

end ForkedOutput
