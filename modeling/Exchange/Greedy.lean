import Mathlib.Algebra.BigOperators.Group.List.Basic
import Mathlib.Tactic.Linarith
import Mathlib.Tactic.Ring

/-! Taking a wanted amount from items of different cost, in the order in which
they come, each as far as it goes. No other way takes more, and if the cheaper
items come first no other way is cheaper. -/
namespace Exchange.Greedy

variable {Item R : Type} [CommRing R]

def amount (parts : List (Item × R)) : R := (parts.map Prod.snd).sum

def bill (cost : Item → R) (parts : List (Item × R)) : R := (parts.map fun part => cost part.1 * part.2).sum

@[simp] theorem amount_nil : amount ([] : List (Item × R)) = 0 := rfl

@[simp] theorem amount_cons (part : Item × R) (parts : List (Item × R)) :
    amount (part :: parts) = part.2 + amount parts :=
  List.sum_cons

@[simp] theorem bill_nil (cost : Item → R) : bill cost [] = 0 := rfl

@[simp] theorem bill_cons (cost : Item → R) (part : Item × R) (parts : List (Item × R)) :
    bill cost (part :: parts) = cost part.1 * part.2 + bill cost parts :=
  List.sum_cons

theorem bill_neg (cost : Item → R) (parts : List (Item × R)) :
    bill (fun item => -cost item) parts = -bill cost parts := by
  induction parts with
  | nil => simp
  | cons part parts ih =>
    rw [bill_cons, bill_cons, ih]
    ring

variable [LinearOrder R] {cost capacity : Item → R} {items : List Item} {parts : List (Item × R)}

/-- Each item as far as it goes, until nothing more is wanted. -/
def take (capacity : Item → R) : R → List Item → List (Item × R)
  | _, [] => []
  | wanted, item :: items =>
    if wanted ≤ 0 then []
    else if wanted < capacity item then [(item, wanted)]
    else (item, capacity item) :: take capacity (wanted - capacity item) items

theorem take_none {wanted : R} (satisfied : wanted ≤ 0) (items : List Item) : take capacity wanted items = [] := by
  cases items with
  | nil => rfl
  | cons item items => rw [take, if_pos satisfied]

/-- Some of an item, no more than there is. -/
structure PartOf (capacity : Item → R) (item : Item) (part : Item × R) : Prop where
  whose : part.1 = item
  nonneg : 0 ≤ part.2
  within : part.2 ≤ capacity item

/-- A part of every item, which may be nothing. -/
def Shares (capacity : Item → R) (items : List Item) (parts : List (Item × R)) : Prop :=
  List.Forall₂ (PartOf capacity) items parts

/-- The cheapest cost of some items. -/
theorem exists_least (cost : Item → R) (items : List Item) : ∃ least, ∀ item ∈ items, least ≤ cost item := by
  induction items with
  | nil => exact ⟨0, fun item member => absurd member List.not_mem_nil⟩
  | cons item items ih =>
    obtain ⟨least, below⟩ := ih
    refine ⟨min (cost item) least, List.forall_mem_cons.mpr ⟨min_le_left _ _, fun other member => ?_⟩⟩
    exact (min_le_right _ _).trans (below other member)

/-- The parts that are not nothing. -/
def used (parts : List (Item × R)) : List (Item × R) := parts.filter fun part => 0 < part.2

theorem used_cons_pos {part : Item × R} (some_ : 0 < part.2) (parts : List (Item × R)) :
    used (part :: parts) = part :: used parts :=
  List.filter_cons_of_pos (by simpa using some_)

theorem used_cons_zero {part : Item × R} (none_ : part.2 = 0) (parts : List (Item × R)) :
    used (part :: parts) = used parts :=
  List.filter_cons_of_neg (by simp [none_])

/-- The parts that are nothing count for nothing. -/
theorem used_shares (cost : Item → R) (shares : Shares capacity items parts) :
    amount (used parts) = amount parts ∧ bill cost (used parts) = bill cost parts := by
  induction shares with
  | nil => exact ⟨rfl, rfl⟩
  | cons here shares ih =>
    rename_i item part items parts
    rcases here.nonneg.lt_or_eq with some_ | none_
    · rw [used_cons_pos some_, amount_cons, amount_cons, bill_cons, bill_cons, ih.1, ih.2]
      exact ⟨rfl, rfl⟩
    · rw [used_cons_zero none_.symm, amount_cons, bill_cons, ← none_, ih.1, ih.2]
      simp

/-- Nothing of every item. -/
theorem shares_nothing (positive : ∀ item ∈ items, 0 < capacity item) :
    ∃ parts, Shares capacity items parts ∧ used parts = [] := by
  induction items with
  | nil => exact ⟨[], .nil, rfl⟩
  | cons item items ih =>
    obtain ⟨here, later⟩ := List.forall_mem_cons.mp positive
    obtain ⟨parts, shares, unused⟩ := ih later
    exact ⟨(item, 0) :: parts, .cons ⟨rfl, le_refl 0, here.le⟩ shares, (used_cons_zero rfl parts).trans unused⟩

/-- What is taken are shares of the items. -/
theorem take_shares (positive : ∀ item ∈ items, 0 < capacity item) (wanted : R) :
    ∃ parts, Shares capacity items parts ∧ used parts = take capacity wanted items := by
  induction items generalizing wanted with
  | nil => exact ⟨[], .nil, rfl⟩
  | cons item items ih =>
    obtain ⟨here, later⟩ := List.forall_mem_cons.mp positive
    rw [take]
    split
    · exact shares_nothing positive
    · rename_i wants
      have some_ : 0 < wanted := not_le.mp wants
      split
      · rename_i less
        obtain ⟨parts, shares, unused⟩ := shares_nothing later
        refine ⟨(item, wanted) :: parts, .cons ⟨rfl, some_.le, less.le⟩ shares, ?_⟩
        rw [used_cons_pos some_, unused]
      · obtain ⟨parts, shares, same⟩ := ih later (wanted - capacity item)
        refine ⟨(item, capacity item) :: parts, .cons ⟨rfl, here.le, le_refl _⟩ shares, ?_⟩
        rw [used_cons_pos here, same]

variable [IsStrictOrderedRing R]

theorem take_le (capacity : Item → R) (wanted : R) (items : List Item) :
    amount (take capacity wanted items) ≤ max wanted 0 := by
  induction items generalizing wanted with
  | nil => exact le_max_right _ _
  | cons item items ih =>
    rw [take]
    split
    · exact le_max_right _ _
    · rename_i wants
      split
      · rw [amount_cons, amount_nil, add_zero]
        exact le_max_left _ _
      · rename_i whole
        have later := ih (wanted - capacity item)
        rw [max_eq_left (sub_nonneg.mpr (not_lt.mp whole))] at later
        rw [amount_cons]
        exact (add_le_of_le_sub_left later).trans (le_max_left _ _)

/-- What one wants, or all there is to share. -/
theorem take_most (shares : Shares capacity items parts) (wanted : R) :
    min wanted (amount parts) ≤ amount (take capacity wanted items) := by
  induction shares generalizing wanted with
  | nil => exact min_le_right _ _
  | cons here shares ih =>
    rename_i item part items parts
    have inside := here.within
    rw [take]
    split
    · rename_i satisfied
      exact (min_le_left _ _).trans satisfied
    · split
      · rw [amount_cons part, amount_cons, amount_nil, add_zero]
        exact min_le_left _ _
      · have later := ih (wanted - capacity item)
        rw [amount_cons, amount_cons]
        rcases min_le_iff.mp later with wants | all
        · exact (min_le_left _ _).trans (by linarith)
        · exact (min_le_right _ _).trans (by linarith)

/-- A bill is no less than the cheapest item allows. -/
theorem least_le_bill {least : R} (shares : Shares capacity items parts)
    (cheapest : ∀ item ∈ items, least ≤ cost item) :
    least * amount parts ≤ bill cost parts := by
  induction shares with
  | nil => simp
  | cons here shares ih =>
    obtain ⟨first, others⟩ := List.forall_mem_cons.mp cheapest
    rw [← here.whose] at first
    rw [amount_cons, bill_cons, mul_add]
    exact add_le_add (mul_le_mul_of_nonneg_right first here.nonneg) (ih others)

/-- Whoever takes as much, and `more` beyond that, pays at least as much, and the
cheapest cost for what is beyond. -/
theorem take_cheapest {least more wanted : R} (shares : Shares capacity items parts)
    (sorted : items.Pairwise fun earlier later => cost earlier ≤ cost later)
    (cheapest : ∀ item ∈ items, least ≤ cost item) (beyond : 0 ≤ more)
    (equal : amount parts = amount (take capacity wanted items) + more) :
    bill cost (take capacity wanted items) + least * more ≤ bill cost parts := by
  induction shares generalizing wanted least more with
  | nil =>
    have nothing : more = 0 := by simpa [take] using equal.symm
    simp [nothing, take]
  | cons here shares ih =>
    rename_i item part items parts
    obtain ⟨after, sorted⟩ := List.pairwise_cons.mp sorted
    have dearer : least * more ≤ cost item * more :=
      mul_le_mul_of_nonneg_right (cheapest item (List.mem_cons_self ..)) beyond
    have first : ∀ other ∈ item :: items, cost item ≤ cost other :=
      List.forall_mem_cons.mpr ⟨le_refl _, after⟩
    have whole : Shares capacity (item :: items) (part :: parts) := .cons here shares
    rw [take] at equal ⊢
    split at equal
    · rename_i satisfied
      have floor := least_le_bill whole cheapest
      rw [equal, amount_nil, zero_add] at floor
      rwa [if_pos satisfied, bill_nil, zero_add]
    · rename_i wants
      rw [if_neg wants]
      split at equal
      · rename_i less
        have floor := least_le_bill whole first
        rw [equal, amount_cons, amount_nil, add_zero, mul_add] at floor
        rw [if_pos less, bill_cons, bill_nil, add_zero]
        exact (add_le_add_right dearer _).trans floor
      · rename_i all
        rw [amount_cons, amount_cons] at equal
        have inside := here.within
        have short : 0 ≤ capacity item - part.2 + more := by linarith
        -- What this item is not asked for is taken from the later ones, which are no cheaper.
        have rest := ih sorted after short (by linarith)
        rw [mul_add, mul_sub] at rest
        rw [if_neg all, bill_cons, bill_cons, here.whose]
        linarith

end Exchange.Greedy
