import Rpi3Bench.Library.ForkedOutput
import Rpi3Bench.Library.Schedule

/-!
# Processes that print to one standard output

Each process of a system has a buffer of its own, and what it prints reaches
standard output when the buffering mode or its exit asks for it.  The system
takes no notice of its output.
-/

namespace SharedOutput

open Transition ForkedOutput

/-- What a step does to standard output. -/
inductive Action (π : Type)
  | silent
  | prints (p : π) (text : Text)
  | exits (p : π)
  deriving DecidableEq

/-- A system with what has reached standard output and what each process still
buffers. -/
structure State (σ π : Type) where
  system : σ
  written : Text
  buffered : π → Text

variable {σ ℓ π : Type} [DecidableEq π]

def State.stream (s : State σ π) (p : π) : Stream := ⟨s.written, s.buffered p⟩

def State.setStream (s : State σ π) (p : π) (stream : Stream) : State σ π :=
  { s with
    written := stream.written
    buffered := Function.update s.buffered p stream.buffered }

def State.act (m : Mode) (s : State σ π) : Action π → State σ π
  | .silent => s
  | .prints p text => s.setStream p ((s.stream p).print m text)
  | .exits p => s.setStream p (s.stream p).flush

/-- A step of the system `base` with its action. -/
def step (m : Mode) (base : σ → ℓ → Option σ) (action : σ → ℓ → Action π) (s : State σ π)
    (l : ℓ) : Option (State σ π) :=
  (base s.system l).map fun t => { s.act m (action s.system l) with system := t }

def start (s : σ) : State σ π := ⟨s, [], fun _ => []⟩

variable {m : Mode} {base : σ → ℓ → Option σ} {action : σ → ℓ → Action π}

theorem step_eq_some {s s' : State σ π} {l : ℓ} : step m base action s l = some s' ↔
    ∃ t, base s.system l = some t ∧ s' = { s.act m (action s.system l) with system := t } := by
  rw [step, Option.map_eq_some_iff]
  simp only [eq_comm]

/-- The system goes on as it would without its output. -/
theorem follow_system (s : σ) (sched : ℕ → ℓ) (n : ℕ) :
    (follow (step m base action) (start s) sched n).system = follow base s sched n := by
  induction n with
  | zero => rfl
  | succ n ih =>
    rw [follow, follow, ← ih, step]
    cases base (follow (step m base action) (start s) sched n).system (sched n) <;> rfl

/-! ## Where the text is -/

/-- What process `p` prints in a step. -/
def Action.textOf (p : π) : Action π → Text
  | .prints q text => if q = p then text else []
  | _ => []

@[simp] theorem textOf_silent (p : π) : (Action.silent : Action π).textOf p = [] := rfl

@[simp] theorem textOf_exits (p q : π) : (Action.exits q : Action π).textOf p = [] := rfl

@[simp] theorem textOf_prints (p q : π) (text : Text) :
    (Action.prints q text).textOf p = if q = p then text else [] := rfl

/-- In the states of `inv`, which no step leaves, `own` is what each process has
printed since the state `s`. -/
structure Prints (base : σ → ℓ → Option σ) (action : σ → ℓ → Action π) (inv : σ → Prop)
    (own : σ → π → Text) (s : σ) : Prop where
  inv_start : inv s
  own_start : ∀ p, own s p = []
  inv_step : ∀ s l t, inv s → base s l = some t → inv t
  own_step : ∀ s l t p, inv s → base s l = some t →
    own t p = own s p ++ (action s l).textOf p

variable {inv : σ → Prop} {own : σ → π → Text} {s : σ}

/-- The process that a step lets print or exit. -/
def Action.actor? : Action π → Option π
  | .silent => none
  | .prints p _ => some p
  | .exits p => some p

/-- `left` tells which processes have exited, and those do nothing more. -/
structure Exits (base : σ → ℓ → Option σ) (action : σ → ℓ → Action π) (inv : σ → Prop)
    (left : σ → π → Prop) (s : σ) : Prop where
  left_start : ∀ p, ¬ left s p
  left_step : ∀ s l t p, inv s → base s l = some t →
    (left t p ↔ left s p ∨ action s l = .exits p)
  stays : ∀ s l t p, inv s → base s l = some t → (action s l).actor? = some p → ¬ left s p

/-- On standard output is all that the processes that have exited have printed, in
the order of their exits, and the buffers of the others hold the rest. -/
structure FlushedAtExit (own : σ → π → Text) (left : σ → π → Prop) (u : State σ π) : Prop where
  written : ∃ order : List π, order.Nodup ∧ (∀ p, p ∈ order ↔ left u.system p) ∧
    u.written = order.flatMap (own u.system)
  buffered : ∀ p, ¬ left u.system p → u.buffered p = own u.system p

namespace FlushedAtExit

variable {left : σ → π → Prop} {u : State σ π} {t : σ}

omit [DecidableEq π] in
/-- A step that prints nothing and ends nobody. -/
theorem silent (hu : FlushedAtExit own left u) (hleft : ∀ p, left t p ↔ left u.system p)
    (hown : ∀ p, own t p = own u.system p) : FlushedAtExit own left { u with system := t } := by
  obtain ⟨order, hnodup, hmem, hwritten⟩ := hu.written
  constructor
  · refine ⟨order, hnodup, fun p => (hmem p).trans (hleft p).symm, hwritten.trans ?_⟩
    rw [funext hown]
  · intro p hp
    rw [hleft] at hp
    exact (hu.buffered p hp).trans (hown p).symm

/-- What is printed goes into the buffer. -/
theorem prints {capacity : ℕ} {p : π} {text : Text} (hu : FlushedAtExit own left u)
    (hp : ¬ left u.system p) (hleft : ∀ p, left t p ↔ left u.system p)
    (hown : ∀ q, own t q = own u.system q ++ (Action.prints p text).textOf q)
    (hfits : (own t p).length < capacity) :
    FlushedAtExit own left { u.act (.full capacity) (.prints p text) with system := t } := by
  have hbuffered := hu.buffered p hp
  have hprinted : own t p = u.buffered p ++ text := by
    rw [hown, textOf_prints, if_pos rfl, hbuffered]
  have hother (q : π) (hq : q ≠ p) : own t q = own u.system q := by
    rw [hown, textOf_prints, if_neg (Ne.symm hq), List.append_nil]
  have hprint : (u.stream p).print (.full capacity) text = ⟨u.written, u.buffered p ++ text⟩ :=
    Stream.print_full (by rwa [← hprinted])
  simp only [State.act, State.setStream, hprint]
  obtain ⟨order, hnodup, hmem, hwritten⟩ := hu.written
  constructor
  · refine ⟨order, hnodup, fun q => (hmem q).trans (hleft q).symm, hwritten.trans ?_⟩
    apply List.flatMap_congr
    intro q hq
    have hne : q ≠ p := by
      rintro rfl
      exact hp ((hmem q).mp hq)
    exact (hother q hne).symm
  · intro q hq
    rw [hleft] at hq
    by_cases hqp : q = p
    · subst hqp
      exact (Function.update_self ..).trans hprinted.symm
    · exact (Function.update_of_ne hqp ..).trans ((hu.buffered q hq).trans (hother q hqp).symm)

/-- The exit of a process writes its buffer out. -/
theorem exits {m : Mode} {p : π} (hu : FlushedAtExit own left u) (hp : ¬ left u.system p)
    (hleft : ∀ q, left t q ↔ left u.system q ∨ q = p) (hown : ∀ q, own t q = own u.system q) :
    FlushedAtExit own left { u.act m (.exits p) with system := t } := by
  obtain ⟨order, hnodup, hmem, hwritten⟩ := hu.written
  have hbuffered := hu.buffered p hp
  constructor
  · refine ⟨order ++ [p], ?_, fun q => ?_, ?_⟩
    · rw [List.nodup_append]
      refine ⟨hnodup, List.nodup_singleton p, ?_⟩
      rintro a ha b hb rfl
      rw [List.mem_singleton] at hb
      subst hb
      exact hp ((hmem a).mp ha)
    · rw [List.mem_append, List.mem_singleton, hmem, hleft]
    · change u.written ++ u.buffered p = _
      rw [hwritten, hbuffered, List.flatMap_append, List.flatMap_singleton, funext hown]
  · intro q hq
    rw [hleft, not_or] at hq
    refine (Function.update_of_ne hq.2 ..).trans ?_
    exact (hu.buffered q hq.1).trans (hown q).symm

end FlushedAtExit

/-- When the buffers hold all that is printed, standard output gets it at the exits
alone. -/
theorem Prints.written_full {left : σ → π → Prop} (h : Prints base action inv own s)
    (he : Exits base action inv left s) {capacity : ℕ}
    (hfits : ∀ s p, inv s → (own s p).length < capacity) (sched : ℕ → ℓ) (n : ℕ) :
    FlushedAtExit own left
      (follow (step (.full capacity) base action) (start s) sched n) := by
  refine (follow_invariant (s := start s) (step (.full capacity) base action) sched
    (fun u => inv u.system ∧ FlushedAtExit own left u) ?_ ?_ n).2
  · refine ⟨h.inv_start, ⟨[], List.nodup_nil, fun p => ?_, rfl⟩, fun p _ => (h.own_start p).symm⟩
    simpa [start] using he.left_start p
  · rintro k u' ⟨hinv, hflushed⟩ hu'
    generalize follow (step (.full capacity) base action) (start s) sched k = u at *
    obtain ⟨t, ht, rfl⟩ := step_eq_some.mp hu'
    have hown := fun q => h.own_step _ _ _ q hinv ht
    have hleft := fun q => he.left_step _ _ _ q hinv ht
    have hstays := fun q => he.stays _ _ _ q hinv ht
    have hinv' := h.inv_step _ _ _ hinv ht
    refine ⟨hinv', ?_⟩
    cases haction : action u.system (sched k) with
    | silent =>
      simp only [haction, textOf_silent, List.append_nil, reduceCtorEq, or_false] at hown hleft
      exact hflushed.silent hleft hown
    | exits p =>
      simp only [haction, textOf_exits, List.append_nil, Action.exits.injEq] at hown hleft
      refine hflushed.exits (hstays p (by rw [haction]; rfl)) (fun q => ?_) hown
      rw [hleft, eq_comm]
    | prints p text =>
      simp only [haction, reduceCtorEq, or_false] at hown hleft
      exact hflushed.prints (hstays p (by rw [haction]; rfl)) hleft hown (hfits t p hinv')

/-- In the other modes, where each print ends its line, all that a process has
printed is on standard output, in its order. -/
theorem Prints.written_line (h : Prints base action inv own s)
    (hm : ∀ capacity, m ≠ .full capacity)
    (hline : ∀ s l p text, inv s → action s l = .prints p text → ∃ line, text = line ++ ['\n'])
    (sched : ℕ → ℓ) (n : ℕ) (p : π) :
    (own (follow (step m base action) (start s) sched n).system p).Sublist
      (follow (step m base action) (start s) sched n).written := by
  refine ((follow_invariant (s := start s) (step m base action) sched
    (fun u => inv u.system ∧ ∀ p, u.buffered p = [] ∧ (own u.system p).Sublist u.written)
    ?_ ?_ n).2 p).2
  · refine ⟨h.inv_start, fun p => ⟨rfl, ?_⟩⟩
    change (own s p).Sublist []
    rw [h.own_start]
  · rintro k u' ⟨hinv, hshown⟩ hu'
    generalize follow (step m base action) (start s) sched k = u at *
    obtain ⟨t, ht, rfl⟩ := step_eq_some.mp hu'
    refine ⟨h.inv_step _ _ _ hinv ht, ?_⟩
    have hown := fun q => h.own_step _ _ _ q hinv ht
    cases haction : action u.system (sched k) with
    | silent =>
      simp only [haction, textOf_silent, List.append_nil] at hown
      intro p
      rw [hown]
      exact hshown p
    | exits p =>
      simp only [haction, textOf_exits, List.append_nil] at hown
      simp only [State.act, State.setStream, State.stream, Stream.flush, (hshown p).1,
        List.append_nil]
      intro q
      rw [hown]
      refine ⟨?_, (hshown q).2⟩
      by_cases hq : q = p
      · rw [hq, Function.update_self]
      · rw [Function.update_of_ne hq, (hshown q).1]
    | prints p text =>
      simp only [haction, textOf_prints] at hown
      obtain ⟨line, rfl⟩ := hline _ _ _ _ hinv haction
      simp only [State.act, State.setStream, State.stream, (hshown p).1, Stream.print_line hm]
      intro q
      rw [hown]
      constructor
      · by_cases hq : q = p
        · rw [hq, Function.update_self]
        · rw [Function.update_of_ne hq, (hshown q).1]
      · apply (hshown q).2.append
        by_cases hq : p = q
        · rw [if_pos hq]
        · rw [if_neg hq]
          exact List.nil_sublist _

end SharedOutput
