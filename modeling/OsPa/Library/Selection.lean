import Mathlib.Order.Lattice

/-!
# Scans for the earliest optimum

A scheduler often walks through a queue with a candidate in hand, and replaces
the candidate whenever the element it looks at is strictly better.  With
"better" read off a key, the scan ends with the first element of largest key.
-/

namespace OsPa
namespace Library

universe u v

/-- Walk through a list, starting with its first element in hand. -/
def scan {Item : Type u} (replaces : Item -> Item -> Bool) : List Item -> Option Item
  | [] => none
  | first :: rest =>
      some ((first :: rest).foldl (fun next pos => if replaces pos next then pos else next) first)

variable {Item : Type u} {Key : Type v}

theorem scan_eq_none {replaces : Item -> Item -> Bool} {items : List Item} :
    scan replaces items = none ↔ items = [] := by
  cases items with
  | nil => exact iff_of_true rfl rfl
  | cons first rest => exact iff_of_false (Option.some_ne_none _) (List.cons_ne_nil _ _)

/-- Whatever the comparison, the scan ends with an element of the list. -/
theorem mem_of_scan {replaces : Item -> Item -> Bool} {items : List Item} {best : Item}
    (found : scan replaces items = some best) : best ∈ items := by
  have walk : forall (rest : List Item) (next : Item),
      rest.foldl (fun next pos => if replaces pos next then pos else next) next ∈ next :: rest := by
    intro rest
    induction rest with
    | nil => exact fun next => List.mem_cons_self
    | cons pos rest inductionHypothesis =>
        intro next
        rw [List.foldl_cons]
        split
        · exact List.mem_cons_of_mem next (inductionHypothesis pos)
        · rcases List.mem_cons.mp (inductionHypothesis next) with same | later
          · rw [same]
            exact List.mem_cons_self
          · exact List.mem_cons_of_mem _ (List.mem_cons_of_mem _ later)
  cases items with
  | nil => cases found
  | cons first rest =>
      have result := Option.some.inj found
      rcases List.mem_cons.mp (walk (first :: rest) first) with same | member
      · rw [← result, same]
        exact List.mem_cons_self
      · rw [← result]
        exact member

/-- The element is the first one of largest key. -/
def EarliestMax [LinearOrder Key] (key : Item -> Key) (items : List Item) (best : Item) : Prop :=
  Exists fun before => Exists fun after => items = before ++ best :: after ∧
    (forall item, item ∈ before -> key item < key best) ∧ forall item, item ∈ after -> key item ≤ key best

namespace EarliestMax

variable [LinearOrder Key] {key : Item -> Key} {items : List Item} {best : Item}

theorem mem (earliest : EarliestMax key items best) : best ∈ items := by
  rcases earliest with ⟨before, after, rfl, _⟩
  exact List.mem_append_right _ List.mem_cons_self

theorem le (earliest : EarliestMax key items best) : forall item, item ∈ items -> key item ≤ key best := by
  rcases earliest with ⟨before, after, rfl, smaller, notLarger⟩
  intro item member
  rcases List.mem_append.mp member with early | late
  · exact le_of_lt (smaller item early)
  · rcases List.mem_cons.mp late with same | later
    · rw [same]
    · exact notLarger item later

theorem singleton (key : Item -> Key) (item : Item) : EarliestMax key [item] item :=
  ⟨[], [], rfl, fun _ never => absurd never List.not_mem_nil, fun _ never => absurd never List.not_mem_nil⟩

/-- A larger element at the end is the earliest one of largest key. -/
theorem append_of_lt (earliest : EarliestMax key items best) {last : Item} (larger : key best < key last) :
    EarliestMax key (items ++ [last]) last := by
  refine ⟨items, [], rfl, ?_, fun _ never => absurd never List.not_mem_nil⟩
  intro item member
  exact lt_of_le_of_lt (earliest.le item member) larger

theorem append_of_le (earliest : EarliestMax key items best) {last : Item} (notLarger : key last ≤ key best) :
    EarliestMax key (items ++ [last]) best := by
  rcases earliest with ⟨before, after, rfl, smaller, others⟩
  refine ⟨before, after ++ [last], by rw [List.append_assoc, List.cons_append], smaller, ?_⟩
  intro item member
  rcases List.mem_append.mp member with early | final
  · exact others item early
  · rw [List.mem_singleton.mp final]
    exact notLarger

/-- A first element that no other one exceeds is the earliest. -/
theorem eq_head {first : Item} {rest : List Item} (earliest : EarliestMax key (first :: rest) best)
    (notLarger : forall item, item ∈ rest -> key item ≤ key first) : best = first := by
  rcases earliest with ⟨before, after, split, smaller, _⟩
  cases before with
  | nil => exact (List.cons.inj split).1.symm
  | cons other before =>
      rcases List.cons.inj split with ⟨rfl, rfl⟩
      have less := smaller first List.mem_cons_self
      have greater := notLarger best (List.mem_append_right _ List.mem_cons_self)
      exact absurd less (not_lt_of_ge greater)

/-- There is only one place for it. -/
theorem unique {other : Item} (earliest : EarliestMax key items best) (earliest' : EarliestMax key items other) :
    best = other := by
  induction items with
  | nil => exact absurd earliest.mem List.not_mem_nil
  | cons first rest inductionHypothesis =>
      rcases earliest with ⟨before, after, split, smaller, notLarger⟩
      rcases earliest' with ⟨before', after', split', smaller', notLarger'⟩
      cases before with
      | nil =>
          rcases List.cons.inj split with ⟨rfl, rfl⟩
          exact (eq_head ⟨before', after', split', smaller', notLarger'⟩ notLarger).symm
      | cons _ before =>
          rcases List.cons.inj split with ⟨rfl, rfl⟩
          cases before' with
          | nil =>
              rcases List.cons.inj split' with ⟨rfl, rest⟩
              exact eq_head ⟨_ :: before, after, split, smaller, notLarger⟩ (rest ▸ notLarger')
          | cons _ before' =>
              exact inductionHypothesis
                ⟨before, after, rfl, fun item member => smaller item (List.mem_cons_of_mem _ member), notLarger⟩
                ⟨before', after', (List.cons.inj split').2,
                  fun item member => smaller' item (List.mem_cons_of_mem _ member), notLarger'⟩

end EarliestMax

/-- The first element of largest key is taken out of a list, and the others stay in
their order.  Nothing is taken out of the empty list. -/
inductive TakesEarliest [LinearOrder Key] (key : Item -> Key) : List Item -> Option Item -> List Item -> Prop
  | nothing : TakesEarliest key [] none []
  | taken {before after : List Item} {best : Item} (smaller : forall item, item ∈ before -> key item < key best)
      (notLarger : forall item, item ∈ after -> key item ≤ key best) :
      TakesEarliest key (before ++ best :: after) (some best) (before ++ after)

/-- To unlink the element is to take it out. -/
theorem EarliestMax.takes [LinearOrder Key] [DecidableEq Item] {key : Item -> Key} {items : List Item} {best : Item}
    (earliest : EarliestMax key items best) : TakesEarliest key items (some best) (items.erase best) := by
  rcases earliest with ⟨before, after, rfl, smaller, notLarger⟩
  have new : best ∉ before := fun member => lt_irrefl _ (smaller best member)
  rw [List.erase_append_right _ new, List.erase_cons_head]
  exact .taken smaller notLarger

/-- The last item is taken out when its key is larger than all others. -/
theorem TakesEarliest.last_iff [LinearOrder Key] {key : Item -> Key} {items rest : List Item} {last : Item}
    {next : Option Item} (takes : TakesEarliest key (items ++ [last]) next rest) (new : last ∉ items) :
    next = some last ↔ forall item, item ∈ items -> key item < key last := by
  generalize whole : items ++ [last] = queue at takes
  cases takes with
  | nothing => exact absurd whole (List.append_ne_nil_of_right_ne_nil _ (List.cons_ne_nil _ _))
  | @taken before after best smaller notLarger =>
      rcases List.eq_nil_or_concat after with rfl | ⟨others, final, rfl⟩
      · rcases List.append_inj' whole rfl with ⟨rfl, same⟩
        cases same
        exact iff_of_true rfl smaller
      · rw [List.concat_eq_append] at whole notLarger
        rw [← List.cons_append, ← List.append_assoc] at whole
        rcases List.append_inj' whole rfl with ⟨rfl, same⟩
        cases same
        have member : best ∈ before ++ best :: others := List.mem_append_right _ List.mem_cons_self
        have atMost := notLarger last (List.mem_append_right _ List.mem_cons_self)
        refine iff_of_false ?_ fun largest => not_lt_of_ge atMost (largest best member)
        intro same
        exact new (Option.some.inj same ▸ member)

/-- A scan that replaces the candidate by strictly larger keys only finds the
first element of largest key. -/
theorem scan_earliestMax [LinearOrder Key] {replaces : Item -> Item -> Bool} (key : Item -> Key)
    (compares : forall pos next, replaces pos next = true ↔ key next < key pos) {items : List Item} {best : Item}
    (found : scan replaces items = some best) : EarliestMax key items best := by
  -- The list is what has been walked through, whose first optimum is in hand, and the rest.
  have walk : forall (rest walked : List Item) (next : Item), EarliestMax key walked next ->
      EarliestMax key (walked ++ rest)
        (rest.foldl (fun next pos => if replaces pos next then pos else next) next) := by
    intro rest
    induction rest with
    | nil =>
        intro walked next earliest
        rw [List.append_nil]
        exact earliest
    | cons pos rest inductionHypothesis =>
        intro walked next earliest
        rw [List.foldl_cons, List.append_cons]
        apply inductionHypothesis
        by_cases better : key next < key pos
        · rw [if_pos ((compares pos next).mpr better)]
          exact earliest.append_of_lt better
        · rw [if_neg fun replaced => better ((compares pos next).mp replaced)]
          exact earliest.append_of_le (le_of_not_gt better)
  cases items with
  | nil => cases found
  | cons first rest =>
      have itself : (if replaces first first then first else first) = first := ite_self _
      have result := walk rest [first] first (EarliestMax.singleton key first)
      rw [← Option.some.inj found, List.foldl_cons, itself]
      exact result

end Library
end OsPa
