import Rpi3Bench.Library.OrderStatistics

/-!
# The contract of `qsort`

What C promises of `qsort` over an arbitrary element type: it permutes the
elements it is handed, and it orders them when the comparator is consistent.
Which of the equal elements comes first is left open, so a result about every
`Qsort` does not depend on the library's algorithm.  A `StandardQsort` keeps the
full contract, which asks for consistency on the elements at hand only.
-/

/-- A comparator whose sign is a total preorder. -/
structure Consistent {α : Type*} (cmp : α → α → ℤ) : Prop where
  swap : ∀ a b, cmp a b ≤ 0 ∨ cmp b a ≤ 0
  trans : ∀ a b c, cmp a b ≤ 0 → cmp b c ≤ 0 → cmp a c ≤ 0

/-- A sorting routine that keeps the contract of `qsort`. -/
structure Qsort (α : Type*) where
  sort : (α → α → ℤ) → List α → List α
  perm : ∀ cmp l, (sort cmp l).Perm l
  ordered : ∀ cmp l, Consistent cmp → (sort cmp l).Pairwise fun a b => cmp a b ≤ 0

namespace Qsort

variable {α : Type*}

@[simp] theorem length_sort (q : Qsort α) (cmp : α → α → ℤ) (l : List α) :
    (q.sort cmp l).length = l.length :=
  (q.perm cmp l).length_eq

/-- Insertion sort keeps the contract. -/
def insertion (α : Type*) : Qsort α where
  sort cmp l := l.insertionSort fun a b => cmp a b ≤ 0
  perm cmp l := List.perm_insertionSort _ l
  ordered cmp l h := by
    have htotal : Std.Total fun a b => cmp a b ≤ 0 := ⟨h.swap⟩
    have htrans : IsTrans α fun a b => cmp a b ≤ 0 := ⟨h.trans⟩
    exact List.pairwise_insertionSort _ l

/-- With a comparator that decides a linear order, sorting is ascending. -/
theorem sort_eq_ascending [LinearOrder α] (q : Qsort α) {cmp : α → α → ℤ}
    (hcmp : ∀ a b, cmp a b ≤ 0 ↔ a ≤ b) (l : List α) :
    q.sort cmp l = OrderStatistics.ascending l := by
  have hcons : Consistent cmp := by
    constructor
    · intro a b
      simpa only [hcmp] using le_total a b
    · intro a b c
      simpa only [hcmp] using le_trans
  apply OrderStatistics.eq_ascending (q.perm cmp l)
  apply List.Pairwise.sortedLE
  simpa only [hcmp] using q.ordered cmp l hcons

end Qsort

/-! ## Consistency on the elements at hand -/

/-- The calls of the comparator on the elements of `l` agree with one another. -/
structure ConsistentOn {α : Type*} (cmp : α → α → ℤ) (l : List α) : Prop where
  swap : ∀ a ∈ l, ∀ b ∈ l, cmp a b ≤ 0 ↔ 0 ≤ cmp b a
  trans : ∀ a ∈ l, ∀ b ∈ l, ∀ c ∈ l, cmp a b ≤ 0 → cmp b c ≤ 0 → cmp a c ≤ 0

/-- A sorting routine that orders whatever it is given a consistent comparator for. -/
structure StandardQsort (α : Type*) extends Qsort α where
  orderedOn : ∀ cmp l, ConsistentOn cmp l → (sort cmp l).Pairwise fun a b => cmp a b ≤ 0

section Standard

variable {α : Type*} {cmp : α → α → ℤ} {l s : List α}

namespace StandardQsort

/-- Insertion sort compares elements of the list only. -/
theorem pairwise_insertionSort (h : ConsistentOn cmp l) :
    (l.insertionSort fun a b => cmp a b ≤ 0).Pairwise fun a b => cmp a b ≤ 0 := by
  let r : {a // a ∈ l} → {a // a ∈ l} → Prop := fun a b => cmp a.val b.val ≤ 0
  have htotal : Std.Total r := by
    constructor
    intro a b
    rcases le_total (cmp a.val b.val) 0 with hle | hge
    · exact Or.inl hle
    · exact Or.inr ((h.swap b.val b.property a.val a.property).mpr hge)
  have htrans : IsTrans {a // a ∈ l} r :=
    ⟨fun a b c => h.trans a.val a.property b.val b.property c.val c.property⟩
  have hsorted := List.pairwise_insertionSort r l.attach
  have hmap := List.map_insertionSort (r := r) (s := fun a b => cmp a b ≤ 0) Subtype.val l.attach
    fun a _ b _ => Iff.rfl
  rw [List.attach_map_subtype_val] at hmap
  rw [← hmap, List.pairwise_map]
  exact hsorted

def insertion (α : Type*) : StandardQsort α where
  toQsort := Qsort.insertion α
  orderedOn _ _ h := pairwise_insertionSort h

end StandardQsort

end Standard
