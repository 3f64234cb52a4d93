import Mathlib.Data.List.Induction

/-!
# Requests in their order

Something is given to one at a time.  Who asks for it while it is taken is
refused and waits.  A log says who has been refused and who has been granted it;
`awaiting` is the line of those who have been refused and not been granted it
since.  If nobody is granted it while another one is first in the line, nobody
gets ahead of those who have asked before.
-/

namespace OsPa
namespace Library

universe u

inductive Notice (Item : Type u)
  | refused (item : Item)
  | granted (item : Item)
  deriving DecidableEq

variable {Item : Type u}

def Notice.item : Notice Item -> Item
  | .refused item => item
  | .granted item => item

variable [DecidableEq Item] {log : List (Notice Item)} {item other : Item}

/-- What a notice means for the line. -/
def Notice.update (line : List Item) : Notice Item -> List Item
  | .refused item => line ++ [item]
  | .granted item => line.filter fun waiter => waiter ≠ item

/-- Those who have been refused and not been granted it since. -/
def awaiting (log : List (Notice Item)) : List Item := log.foldl Notice.update []

theorem awaiting_concat (log : List (Notice Item)) (notice : Notice Item) :
    awaiting (log ++ [notice]) = notice.update (awaiting log) := List.foldl_append

/-- Who waits has been refused and not been granted it since. -/
theorem exists_of_mem_awaiting (waits : item ∈ awaiting log) : Exists fun first => Exists fun middle =>
    log = first ++ .refused item :: middle ∧ .granted item ∉ middle := by
  induction log using List.reverseRecOn with
  | nil => exact absurd waits List.not_mem_nil
  | append_singleton log notice inductionHypothesis =>
      rw [awaiting_concat] at waits
      have later : item ∈ awaiting log -> .granted item ≠ notice -> Exists fun first => Exists fun middle =>
          log ++ [notice] = first ++ .refused item :: middle ∧ .granted item ∉ middle := by
        intro waited other
        rcases inductionHypothesis waited with ⟨first, middle, rfl, ungranted⟩
        refine ⟨first, middle ++ [notice], by rw [List.append_assoc, List.cons_append], ?_⟩
        intro member
        rcases List.mem_append.mp member with early | last
        · exact ungranted early
        · exact other (List.mem_singleton.mp last)
      cases notice with
      | refused another =>
          rcases List.mem_append.mp waits with waited | last
          · exact later waited nofun
          · rw [List.mem_singleton.mp last]
            exact ⟨log, [], rfl, List.not_mem_nil⟩
      | granted another =>
          rcases List.mem_filter.mp waits with ⟨waited, different⟩
          apply later waited
          rintro ⟨⟩
          exact of_decide_eq_true different rfl

/-- Nobody who has first asked after another one was refused is granted it before
that one. -/
def InRequestOrder (log : List (Notice Item)) : Prop :=
  forall first middle rest item other, log = first ++ .refused item :: (middle ++ .granted other :: rest) ->
    (forall notice, notice ∈ first -> notice.item ≠ other) -> other ≠ item -> .granted item ∈ middle

/-- Nobody is granted it while another one is first in the line. -/
def InOrder (log : List (Notice Item)) : Prop :=
  forall before item after, log = before ++ .granted item :: after ->
    forall first, (awaiting before).head? = some first -> first = item

namespace InOrder

theorem nil : InOrder ([] : List (Notice Item)) := by
  intro before item after split
  exact absurd split.symm (List.append_ne_nil_of_right_ne_nil _ (List.cons_ne_nil _ _))

/-- Only a grant has to be looked at. -/
theorem concat (inOrder : InOrder log) {notice : Notice Item}
    (next : forall item, notice = .granted item -> forall first, (awaiting log).head? = some first -> first = item) :
    InOrder (log ++ [notice]) := by
  intro before item after split
  rcases List.eq_nil_or_concat after with rfl | ⟨earlier, last, rfl⟩
  · rcases List.append_inj' split rfl with ⟨rfl, same⟩
    exact next item (List.cons.inj same).1
  · rw [List.concat_eq_append, ← List.cons_append, ← List.append_assoc] at split
    exact inOrder before item earlier (List.append_inj' split rfl).1

theorem of_append {more : List (Notice Item)} (inOrder : InOrder (log ++ more)) : InOrder log := by
  intro before item after split
  apply inOrder before item (after ++ more)
  rw [split, List.append_assoc, List.cons_append]

/-- Until one who has been refused is granted it, nobody who has asked later is
in front of it. -/
theorem ahead {first middle : List (Notice Item)} (inOrder : InOrder (first ++ .refused item :: middle))
    (new : forall notice, notice ∈ first -> notice.item ≠ other) (ungranted : .granted item ∉ middle) :
    Exists fun before => Exists fun after => awaiting (first ++ .refused item :: middle) = before ++ item :: after ∧
      other ∉ before := by
  induction middle using List.reverseRecOn with
  | nil =>
      refine ⟨awaiting first, [], awaiting_concat first (.refused item), ?_⟩
      intro waits
      rcases exists_of_mem_awaiting waits with ⟨_, _, rfl, _⟩
      exact new _ (List.mem_append_right _ List.mem_cons_self) rfl
  | append_singleton middle notice inductionHypothesis =>
      rw [← List.cons_append, ← List.append_assoc] at inOrder ⊢
      rcases inductionHypothesis inOrder.of_append fun early => ungranted (List.mem_append_left _ early) with
        ⟨before, after, line, outside⟩
      rw [awaiting_concat, line]
      cases notice with
      | refused another =>
          refine ⟨before, after ++ [another], ?_, outside⟩
          exact List.append_assoc before (item :: after) [another]
      | granted another =>
          have different : item ≠ another := by
            rintro rfl
            exact ungranted (List.mem_append_right _ List.mem_cons_self)
          refine ⟨before.filter fun waiter => waiter ≠ another, after.filter fun waiter => waiter ≠ another, ?_, ?_⟩
          · dsimp only [Notice.update]
            rw [List.filter_append]
            exact congrArg _ (List.filter_cons_of_pos (decide_eq_true different))
          · exact fun member => outside (List.mem_filter.mp member).1

/-- Who is first in the line has asked first. -/
theorem inRequestOrder (inOrder : InOrder log) : InRequestOrder log := by
  rintro first middle rest item other rfl new different
  by_contra ungranted
  rw [← List.cons_append, ← List.append_assoc] at inOrder
  rcases inOrder.of_append.ahead new ungranted with ⟨before, after, line, outside⟩
  have next := inOrder _ other rest rfl
  rw [line] at next
  cases before with
  | nil => exact different (next item rfl).symm
  | cons head tail => exact outside (next head rfl ▸ List.mem_cons_self)

end InOrder

end Library
end OsPa
