import Mathlib.Data.List.Basic
import TreeLayout.Query

/-!
# Outcomes and queries of inquiries

How a composed inquiry ends follows from how its parts end; the queries that are issued on the way
play no role in it. Computations in a row end with all their results, or with the first failure, and
issue the queries of each of them up to the one that fails.
-/

namespace TreeLayout

section First

variable {ε α : Type} {fails : α → ε → Prop} {items : List α}

/-- The first item that fails, behind the items that do not, and its failure. -/
structure IsFirst (fails : α → ε → Prop) (items front : List α) (item : α) (error : ε) : Prop where
  cut : ∃ back, items = front ++ item :: back
  front : ∀ other ∈ front, ∀ error, ¬ fails other error
  fails : fails item error

theorem isFirst_cons_iff {first item : α} {front : List α} {error : ε} :
    IsFirst fails (first :: items) front item error ↔
      (front = [] ∧ item = first ∧ fails first error) ∨
        ∃ rest, front = first :: rest ∧ (∀ error, ¬ fails first error) ∧
          IsFirst fails items rest item error := by
  constructor
  · intro h
    obtain ⟨⟨back, hcut⟩, hfront, hfails⟩ := h
    cases front with
    | nil =>
      obtain ⟨rfl, -⟩ := List.cons.inj hcut
      exact .inl ⟨rfl, rfl, hfails⟩
    | cons other front =>
      obtain ⟨rfl, rfl⟩ := List.cons.inj hcut
      obtain ⟨hfirst, hrest⟩ := List.forall_mem_cons.mp hfront
      exact .inr ⟨front, rfl, hfirst, ⟨back, rfl⟩, hrest, hfails⟩
  · intro h
    rcases h with ⟨rfl, rfl, hfails⟩ | ⟨rest, rfl, hfirst, ⟨⟨back, rfl⟩, hrest, hfails⟩⟩
    · exact ⟨⟨items, rfl⟩, by simp, hfails⟩
    · exact ⟨⟨back, rfl⟩, List.forall_mem_cons.mpr ⟨hfirst, hrest⟩, hfails⟩

/-- Either some item is the first that fails, or no item fails. -/
theorem exists_isFirst_or_forall (fails : α → ε → Prop) (items : List α) :
    (∃ front item error, IsFirst fails items front item error) ∨
      ∀ item ∈ items, ∀ error, ¬ fails item error := by
  induction items with
  | nil => exact .inr (by simp)
  | cons first items ih =>
    by_cases hfirst : ∃ error, fails first error
    · obtain ⟨error, herror⟩ := hfirst
      exact .inl ⟨[], first, error, isFirst_cons_iff.mpr (.inl ⟨rfl, rfl, herror⟩)⟩
    · have hfirst := not_exists.mp hfirst
      rcases ih with ⟨front, item, error, hrest⟩ | hnone
      · exact .inl ⟨first :: front, item, error,
          isFirst_cons_iff.mpr (.inr ⟨front, rfl, hfirst, hrest⟩)⟩
      · exact .inr (List.forall_mem_cons.mpr ⟨hfirst, hnone⟩)

end First

namespace Inquiry

variable {ε α β : Type}

@[simp] theorem outcome_pure (a : α) : (pure a : Inquiry ε α).outcome = .ok a := rfl

@[simp] theorem outcome_ofExcept (outcome : Except ε α) :
    (ofExcept outcome : Inquiry ε α).outcome = outcome := rfl

@[simp] theorem outcome_ask (query : Query) (answer : Except Glob.Error α)
    (onError : Glob.Error → ε) : (ask query answer onError).outcome = answer.mapError onError := rfl

/-- A computation goes on after a result and ends at an error. -/
theorem outcome_bind (first : Inquiry ε α) (next : α → Inquiry ε β) :
    (first >>= next).outcome = first.outcome.bind fun a => (next a).outcome := by
  obtain ⟨queries, outcome⟩ := first
  cases outcome <;> rfl

/-- Computations in a row end as their outcomes in a row. -/
theorem outcome_mapM (f : α → Inquiry ε β) (items : List α) :
    (items.mapM f).outcome = items.mapM fun item => (f item).outcome := by
  induction items with
  | nil => rfl
  | cons item items ih =>
    rw [List.mapM_cons, List.mapM_cons, outcome_bind]
    cases (f item).outcome with
    | error => rfl
    | ok b =>
      change (items.mapM f >>= fun bs => pure (b :: bs)).outcome = _
      rw [outcome_bind, ih]
      cases items.mapM fun item => (f item).outcome <;> rfl

theorem bind_ok (queries : List Query) (a : α) (next : α → Inquiry ε β) :
    (⟨queries, .ok a⟩ : Inquiry ε α) >>= next =
      ⟨queries ++ (next a).queries, (next a).outcome⟩ := rfl

/-- After a result, the queries of what follows are issued. -/
theorem bind_of_ok {first : Inquiry ε α} {a : α} (h : first.outcome = .ok a)
    (next : α → Inquiry ε β) :
    first >>= next = ⟨first.queries ++ (next a).queries, (next a).outcome⟩ := by
  obtain ⟨queries, outcome⟩ := first
  cases h
  rfl

/-- After an error, no further query is issued. -/
theorem bind_of_error {first : Inquiry ε α} {error : ε} (h : first.outcome = .error error)
    (next : α → Inquiry ε β) : first >>= next = ⟨first.queries, .error error⟩ := by
  obtain ⟨queries, outcome⟩ := first
  cases h
  rfl

/-- Computations in a row that all have results issue all their queries. -/
theorem mapM_of_ok {f : α → Inquiry ε β} {g : α → β} {items : List α}
    (h : ∀ item ∈ items, (f item).outcome = .ok (g item)) :
    items.mapM f = ⟨items.flatMap fun item => (f item).queries, .ok (items.map g)⟩ := by
  induction items with
  | nil => rfl
  | cons item items ih =>
    have hrest := ih fun other hother => h other (List.mem_cons_of_mem item hother)
    rw [List.mapM_cons, bind_of_ok (h item List.mem_cons_self), hrest]
    simp [bind, pure, Inquiry.bind, Inquiry.pure]

/-- Computations in a row issue the queries up to the first that fails. -/
theorem mapM_of_error {f : α → Inquiry ε β} {front : List α} {item : α} {error : ε}
    (hfront : ∀ other ∈ front, ∃ b, (f other).outcome = .ok b)
    (hitem : (f item).outcome = .error error) (back : List α) :
    (front ++ item :: back).mapM f =
      ⟨(front ++ [item]).flatMap fun other => (f other).queries, .error error⟩ := by
  induction front with
  | nil =>
    rw [List.nil_append, List.mapM_cons, bind_of_error hitem]
    simp
  | cons other front ih =>
    obtain ⟨b, hb⟩ := hfront other List.mem_cons_self
    have hrest := ih fun later hlater => hfront later (List.mem_cons_of_mem other hlater)
    rw [List.cons_append, List.mapM_cons, bind_of_ok hb, hrest]
    simp [bind, Inquiry.bind]

/-- A computation for each item, by the query that it issues, the ways in which it fails, and its
result where it does not. -/
structure IsDescribed (f : α → Inquiry ε β) (query? : α → Option Query) (fails : α → ε → Prop)
    (result : α → β) : Prop where
  queries (item : α) : (f item).queries = (query? item).toList
  error {item : α} {error : ε} (h : fails item error) : (f item).outcome = .error error
  ok {item : α} (h : ∀ error, ¬ fails item error) : (f item).outcome = .ok (result item)

namespace IsDescribed

variable {f : α → Inquiry ε β} {query? : α → Option Query} {fails : α → ε → Prop}
  {result : α → β} {items : List α}

theorem flatMap_queries (h : IsDescribed f query? fails result) (items : List α) :
    (items.flatMap fun item => (f item).queries) = items.filterMap query? := by
  simp only [h.queries, List.filterMap_eq_flatMap_toList]

/-- A row of computations fails with the first item that does, and issues the queries up to it. -/
theorem mapM_of_isFirst (h : IsDescribed f query? fails result) {front : List α} {item : α}
    {error : ε} (hfirst : IsFirst fails items front item error) :
    items.mapM f = ⟨(front ++ [item]).filterMap query?, .error error⟩ := by
  obtain ⟨⟨back, rfl⟩, hfront, hfails⟩ := hfirst
  rw [mapM_of_error (fun other hother => ⟨_, h.ok (hfront other hother)⟩) (h.error hfails),
    h.flatMap_queries]

/-- A row of computations none of which fails has all results and issues all queries. -/
theorem mapM_of_forall (h : IsDescribed f query? fails result)
    (hnone : ∀ item ∈ items, ∀ error, ¬ fails item error) :
    items.mapM f = ⟨items.filterMap query?, .ok (items.map result)⟩ := by
  rw [mapM_of_ok fun item hitem => h.ok (hnone item hitem), h.flatMap_queries]

end IsDescribed

/-- A computation that ends with the first failure among some items, and with a result where none of them
fails, succeeds exactly where none of them fails. -/
theorem outcome_eq_ok_iff {fails : α → ε → Prop} {items : List α} {inquiry : Inquiry ε β} {result b : β}
    (hfirst : ∀ front item error, IsFirst fails items front item error →
      inquiry.outcome = .error error)
    (hnone : (∀ item ∈ items, ∀ error, ¬ fails item error) → inquiry.outcome = .ok result) :
    inquiry.outcome = .ok b ↔ (∀ item ∈ items, ∀ error, ¬ fails item error) ∧ b = result := by
  constructor
  · intro h
    rcases exists_isFirst_or_forall fails items with ⟨front, item, error, hfails⟩ | hall
    · cases (hfirst front item error hfails).symm.trans h
    · cases (hnone hall).symm.trans h
      exact ⟨hall, rfl⟩
  · intro h
    obtain ⟨hall, rfl⟩ := h
    exact hnone hall

end Inquiry

section Result

variable {ε φ α β : Type}

theorem bind_eq_ok_iff {first : Except ε α} {next : α → Except ε β} {b : β} :
    first >>= next = .ok b ↔ ∃ a, first = .ok a ∧ next a = .ok b := by
  cases first <;> simp [bind, Except.bind]

theorem bind_eq_error_iff {first : Except ε α} {next : α → Except ε β} {error : ε} :
    first >>= next = .error error ↔ first = .error error ∨ ∃ a, first = .ok a ∧ next a = .error error := by
  cases first <;> simp [bind, Except.bind]

theorem map_bind {γ : Type} (first : Except ε α) (next : α → Except ε β) (g : β → γ) :
    (first >>= next).map g = first >>= fun a => (next a).map g := by
  cases first <;> rfl

theorem map_eq_error_iff {outcome : Except ε α} {g : α → β} {error : ε} :
    outcome.map g = .error error ↔ outcome = .error error := by
  cases outcome <;> simp [Except.map]

theorem mapError_map (outcome : Except ε α) (f : ε → φ) (g : α → β) :
    (outcome.mapError f).map g = (outcome.map g).mapError f := by
  cases outcome <;> rfl

theorem mapError_eq_error_iff {outcome : Except ε α} {f : ε → φ} {error : φ} :
    outcome.mapError f = .error error ↔ ∃ cause, outcome = .error cause ∧ error = f cause := by
  cases outcome <;> simp [Except.mapError, eq_comm]

theorem mapError_eq_ok_iff {outcome : Except ε α} {f : ε → φ} {a : α} :
    outcome.mapError f = .ok a ↔ outcome = .ok a := by
  cases outcome with
  | error error =>
    constructor
    · intro h
      cases h
    · intro h
      cases h
  | ok b =>
    constructor
    · intro h
      cases h
      rfl
    · intro h
      cases h
      rfl

end Result

section Row

variable {ε α β : Type} {f : α → Except ε β} {items : List α}

/-- Where every computation has a result, all of them together have the results in a row. -/
theorem mapM_eq_ok {g : α → β} (h : ∀ item ∈ items, f item = .ok (g item)) :
    items.mapM f = .ok (items.map g) := by
  induction items with
  | nil => rfl
  | cons item items ih =>
    rw [List.mapM_cons, h item List.mem_cons_self,
      ih fun other hother => h other (List.mem_cons_of_mem item hother)]
    rfl

/-- Where computations in a row have results, each of them has one. -/
theorem exists_of_mapM_eq_ok {results : List β} (h : items.mapM f = .ok results) :
    ∀ item ∈ items, ∃ b, f item = .ok b := by
  induction items generalizing results with
  | nil => simp
  | cons item items ih =>
    rw [List.mapM_cons] at h
    cases hitem : f item with
    | error error => simp [hitem, bind, Except.bind] at h
    | ok b =>
      cases hrest : items.mapM f with
      | error error => simp [hitem, hrest, bind, Except.bind] at h
      | ok rest =>
        intro other hother
        rcases List.mem_cons.mp hother with rfl | hmem
        · exact ⟨b, hitem⟩
        · exact ih hrest other hmem

/-- Where computations in a row have results, each result is that of one of them. -/
theorem exists_of_mem_results {results : List β} (h : items.mapM f = .ok results) :
    ∀ b ∈ results, ∃ item ∈ items, f item = .ok b := by
  induction items generalizing results with
  | nil =>
    cases h
    simp
  | cons item items ih =>
    rw [List.mapM_cons] at h
    obtain ⟨first, hfirst, h⟩ := bind_eq_ok_iff.mp h
    obtain ⟨rest, hrest, h⟩ := bind_eq_ok_iff.mp h
    cases h
    intro b hb
    rcases List.mem_cons.mp hb with rfl | hmem
    · exact ⟨item, List.mem_cons_self, hfirst⟩
    · obtain ⟨other, hother, hresult⟩ := ih hrest b hmem
      exact ⟨other, List.mem_cons_of_mem _ hother, hresult⟩

/-- Computations in a row fail with the first failure among them. -/
theorem mapM_eq_error_iff {error : ε} :
    items.mapM f = .error error ↔ ∃ front item back, items = front ++ item :: back ∧
      (∀ other ∈ front, ∃ b, f other = .ok b) ∧ f item = .error error := by
  induction items with
  | nil => simp [pure, Except.pure]
  | cons item items ih =>
    rw [List.mapM_cons]
    cases hitem : f item with
    | error failure =>
      constructor
      · intro h
        cases h
        exact ⟨[], item, items, rfl, by simp, hitem⟩
      · intro hexists
        obtain ⟨front, other, back, hitems, hfront, hother⟩ := hexists
        cases front with
        | nil =>
          obtain ⟨rfl, -⟩ := List.cons.inj hitems
          cases hitem.symm.trans hother
          rfl
        | cons first front =>
          obtain ⟨rfl, -⟩ := List.cons.inj hitems
          obtain ⟨b, hb⟩ := hfront item List.mem_cons_self
          cases hitem.symm.trans hb
    | ok b =>
      have hrest : (do let rest ← items.mapM f; pure (b :: rest) : Except ε (List β)) =
          .error error ↔ items.mapM f = .error error := by
        cases items.mapM f <;> simp [bind, Except.bind, pure, Except.pure]
      refine hrest.trans (ih.trans ?_)
      constructor
      · intro hexists
        obtain ⟨front, other, back, rfl, hfront, hother⟩ := hexists
        refine ⟨item :: front, other, back, rfl, fun before hbefore => ?_, hother⟩
        rcases List.mem_cons.mp hbefore with rfl | hmem
        · exact ⟨b, hitem⟩
        · exact hfront before hmem
      · intro hexists
        obtain ⟨front, other, back, hitems, hfront, hother⟩ := hexists
        cases front with
        | nil =>
          obtain ⟨rfl, -⟩ := List.cons.inj hitems
          cases hitem.symm.trans hother
        | cons first front =>
          obtain ⟨rfl, rfl⟩ := List.cons.inj hitems
          exact ⟨front, other, back, rfl,
            fun before hbefore => hfront before (List.mem_cons_of_mem _ hbefore), hother⟩

/-- Two rows of computations have results together if each has. -/
theorem mapM_append_eq_ok_iff {front back : List α} {results : List β} :
    (front ++ back).mapM f = .ok results ↔ ∃ first second,
      front.mapM f = .ok first ∧ back.mapM f = .ok second ∧ results = first ++ second := by
  simp only [List.mapM_append, bind_eq_ok_iff, pure, Except.pure, Except.ok.injEq]
  constructor
  · intro h
    obtain ⟨first, hfirst, second, hsecond, rfl⟩ := h
    exact ⟨first, second, hfirst, hsecond, rfl⟩
  · intro h
    obtain ⟨first, second, hfirst, hsecond, rfl⟩ := h
    exact ⟨first, hfirst, second, hsecond, rfl⟩

/-- Where changed items have exactly the changed results, so has a row of them. -/
theorem mapM_map_eq_ok_iff {change : α → α} {changed : β → β}
    (h : ∀ item b, f (change item) = .ok b ↔ ∃ a, f item = .ok a ∧ b = changed a)
    {results : List β} : (items.map change).mapM f = .ok results ↔
      ∃ unchanged, items.mapM f = .ok unchanged ∧ results = unchanged.map changed := by
  induction items generalizing results with
  | nil => simp [pure, Except.pure, eq_comm]
  | cons item items ih =>
    simp only [List.map_cons, List.mapM_cons, bind_eq_ok_iff, pure, Except.pure, Except.ok.injEq,
      h, ih]
    constructor
    · intro hexists
      obtain ⟨_, ⟨a, ha, rfl⟩, _, ⟨rest, hrest, rfl⟩, rfl⟩ := hexists
      exact ⟨a :: rest, ⟨a, ha, rest, hrest, rfl⟩, rfl⟩
    · intro hexists
      obtain ⟨_, ⟨a, ha, rest, hrest, rfl⟩, rfl⟩ := hexists
      exact ⟨changed a, ⟨a, ha, rfl⟩, rest.map changed, ⟨rest, hrest, rfl⟩, rfl⟩

theorem filterAuxM_eq_ok {p : α → Except ε Bool} {g : α → Bool}
    (h : ∀ item ∈ items, p item = .ok (g item)) (kept : List α) :
    items.filterAuxM p kept = .ok ((items.filter g).reverse ++ kept) := by
  induction items generalizing kept with
  | nil => rfl
  | cons item items ih =>
    rw [List.filterAuxM, h item List.mem_cons_self]
    have hrest := ih (fun other hother => h other (List.mem_cons_of_mem item hother))
    cases hitem : g item with
    | false =>
      rw [List.filter_cons_of_neg (by simp [hitem])]
      exact hrest kept
    | true =>
      rw [List.filter_cons_of_pos hitem, List.reverse_cons, List.append_assoc]
      exact hrest (item :: kept)

/-- Where every question has an answer, all of them together keep what is answered with yes. -/
theorem filterM_eq_ok {p : α → Except ε Bool} {g : α → Bool}
    (h : ∀ item ∈ items, p item = .ok (g item)) : items.filterM p = .ok (items.filter g) := by
  rw [List.filterM, filterAuxM_eq_ok h, List.append_nil]
  change Except.ok (items.filter g).reverse.reverse = _
  rw [List.reverse_reverse]

theorem exists_of_filterAuxM_eq_error {p : α → Except ε Bool} {kept : List α} {error : ε}
    (h : items.filterAuxM p kept = .error error) : ∃ item ∈ items, p item = .error error := by
  induction items generalizing kept with
  | nil => cases h
  | cons item items ih =>
    rw [List.filterAuxM] at h
    cases hitem : p item with
    | error fault =>
      rw [hitem] at h
      cases h
      exact ⟨item, List.mem_cons_self, hitem⟩
    | ok answer =>
      rw [hitem] at h
      obtain ⟨other, hother, hfails⟩ := ih h
      exact ⟨other, List.mem_cons_of_mem item hother, hfails⟩

/-- Where the answers fail, a question does. -/
theorem exists_of_filterM_eq_error {p : α → Except ε Bool} {error : ε}
    (h : items.filterM p = .error error) : ∃ item ∈ items, p item = .error error := by
  rw [List.filterM] at h
  cases hkept : items.filterAuxM p [] with
  | error fault =>
    rw [hkept] at h
    cases h
    exact exists_of_filterAuxM_eq_error hkept
  | ok kept =>
    rw [hkept] at h
    cases h

end Row

end TreeLayout
