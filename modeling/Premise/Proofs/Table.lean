import Mathlib.Data.List.Basic
import Premise.Proofs.Text.Collection
import Premise.Table

/-!
What a table holds after many entries: the names in the order in which they came first, each with
the value that came last. A table of entries can be entered in place of the entries. Main statements:
`Table.keys_ofList`, `Table.lookup_ofList` and `Table.putAll_ofList`.
-/
namespace Premise

/-! ### The last with a property -/

section
variable {α β : Type} {p : α → Prop} {l l' : List α} {a : α}

/-- The item has the property, and none behind it has. -/
def Last (p : α → Prop) (l : List α) (a : α) : Prop :=
  ∃ before after, l = before ++ a :: after ∧ p a ∧ ∀ b ∈ after, ¬ p b

theorem not_last_nil : ¬ Last p [] a := by
  rintro ⟨before, after, whole, -⟩
  simp at whole

theorem Last.mem (last : Last p l a) : a ∈ l := by
  obtain ⟨before, after, rfl, -⟩ := last
  simp

theorem Last.has (last : Last p l a) : p a := by
  obtain ⟨-, -, -, has, -⟩ := last
  exact has

theorem last_cons {x : α} : Last p (x :: l) a ↔ Last p l a ∨ a = x ∧ p x ∧ ∀ b ∈ l, ¬ p b := by
  constructor
  · rintro ⟨before, after, whole, has, none⟩
    cases before with
    | nil =>
      cases whole
      exact Or.inr ⟨rfl, has, none⟩
    | cons y before =>
      cases whole
      exact Or.inl ⟨before, after, rfl, has, none⟩
  · rintro (⟨before, after, rfl, has, none⟩ | ⟨rfl, has, none⟩)
    · exact ⟨x :: before, after, rfl, has, none⟩
    · exact ⟨[], l, rfl, has, none⟩

theorem last_append : Last p (l ++ l') a ↔ Last p l' a ∨ Last p l a ∧ ∀ b ∈ l', ¬ p b := by
  induction l with
  | nil => simp [not_last_nil]
  | cons x l ih =>
    rw [List.cons_append, last_cons, ih, last_cons]
    simp only [List.forall_mem_append]
    tauto

/-- The last in a list of parts is the last in the last part with such an item. -/
theorem last_flatMap {p : β → Prop} {f : α → List β} {b : β} : Last p (l.flatMap f) b ↔
    ∃ a, Last (fun x => ∃ c ∈ f x, p c) l a ∧ Last p (f a) b := by
  induction l with
  | nil => simp [not_last_nil]
  | cons x l ih =>
    have free : (∀ c ∈ l.flatMap f, ¬ p c) ↔ ∀ y ∈ l, ¬ ∃ c ∈ f y, p c := by
      simp only [List.mem_flatMap]
      constructor
      · rintro none y member ⟨c, inside, has⟩
        exact none c ⟨y, member, inside⟩ has
      · rintro none c ⟨y, member, inside⟩ has
        exact none y member ⟨c, inside, has⟩
    rw [List.flatMap_cons, last_append, ih, free]
    simp only [last_cons]
    constructor
    · rintro (⟨a, last, inside⟩ | ⟨inside, none⟩)
      · exact ⟨a, Or.inl last, inside⟩
      · exact ⟨x, Or.inr ⟨rfl, ⟨b, inside.mem, inside.has⟩, none⟩, inside⟩
    · rintro ⟨a, last | ⟨rfl, -, none⟩, inside⟩
      · exact Or.inl ⟨a, last, inside⟩
      · exact Or.inr ⟨inside, none⟩

theorem lookup_reverse {κ : Type} [BEq κ] [LawfulBEq κ] {entries : List (κ × α)} {k : κ} :
    entries.reverse.lookup k = some a ↔ Last (·.1 = k) entries (k, a) := by
  rw [List.lookup_eq_some_iff]
  constructor
  · rintro ⟨after, before, turned, others⟩
    refine ⟨before.reverse, after.reverse, ?_, rfl, fun e member same => ?_⟩
    · simpa using congrArg List.reverse turned
    · have other := others e (List.mem_reverse.mp member)
      rw [same] at other
      simp at other
  · rintro ⟨before, after, rfl, -, others⟩
    refine ⟨after.reverse, before.reverse, by simp, fun e member => ?_⟩
    exact bne_iff_ne.mpr (Ne.symm (others e (List.mem_reverse.mp member)))

end

namespace Table

variable {α : Type} {t u : Table α} {xs ys : List (String × α)} {name n : String} {a : α}

def keys (t : Table α) : List String :=
  t.map (·.1)

/-! ### Lookups -/

theorem has_iff : t.has name = true ↔ name ∈ keys t := by
  simp [has, keys]

theorem lookup_eq_none : t.lookup name = none ↔ name ∉ keys t := by
  rw [List.lookup_eq_none_iff]
  unfold keys
  constructor
  · rintro others named
    obtain ⟨e, member, rfl⟩ := List.mem_map.mp named
    exact bne_iff_ne.mp (others e member) rfl
  · rintro fresh e member
    refine bne_iff_ne.mpr fun same => fresh ?_
    rw [same]
    exact List.mem_map_of_mem member

theorem lookup_entry (e : String × α) (t : Table α) :
    List.lookup n (e :: t) = if n = e.1 then some e.2 else t.lookup n := by
  obtain ⟨k, b⟩ := e
  rw [List.lookup_cons]
  by_cases same : n = k
  · simp [same]
  · have other : (n == k) = false := by simpa using same
    simp [same, other]

theorem mem_iff_lookup (distinct : (keys t).Nodup) : (name, a) ∈ t ↔ t.lookup name = some a := by
  induction t with
  | nil => simp
  | cons e t ih =>
    obtain ⟨k, b⟩ := e
    obtain ⟨fresh, distinct⟩ := List.nodup_cons.mp distinct
    rw [lookup_entry, List.mem_cons, ih distinct]
    by_cases same : name = k
    · subst same
      have missing : t.lookup name = none := lookup_eq_none.mpr fresh
      simp [missing, eq_comm]
    · simp [same]

theorem lookup_put : (t.put name a).lookup n = if n = name then some a else t.lookup n := by
  have replaced : (t.map fun e => if e.1 == name then (name, a) else e).lookup n =
      if n = name then (t.lookup n).map fun _ => a else t.lookup n := by
    induction t with
    | nil => simp
    | cons e t ih =>
      rw [List.map_cons, lookup_entry, lookup_entry, ih]
      grind
  unfold put
  split
  · rename_i present
    rw [replaced]
    by_cases same : n = name
    · subst same
      cases there : t.lookup n with
      | none => exact absurd (has_iff.mp present) (lookup_eq_none.mp there)
      | some b => simp
    · rw [if_neg same, if_neg same]
  · rename_i absent
    rw [has_iff, ← lookup_eq_none] at absent
    rw [List.lookup_append, lookup_entry]
    by_cases same : n = name
    · simp [same, absent]
    · simp [same]

theorem lookup_putAll : (t.putAll xs).lookup n = (xs.reverse.lookup n).or (t.lookup n) := by
  induction xs generalizing t with
  | nil => rfl
  | cons e xs ih =>
    change (putAll (t.put e.1 e.2) xs).lookup n = _
    rw [ih, lookup_put, List.reverse_cons, List.lookup_append, Option.or_assoc, lookup_entry]
    by_cases same : n = e.1 <;> simp [same]

/-- The last value that was entered counts. -/
theorem lookup_ofList : (ofList xs).lookup name = some a ↔ Last (·.1 = name) xs (name, a) := by
  rw [ofList, lookup_putAll, List.lookup_nil, Option.or_none, lookup_reverse]

/-! ### Names -/

theorem keys_put : keys (t.put name a) = Text.adjoin (keys t) name := by
  unfold put Text.adjoin
  by_cases present : name ∈ keys t
  · have kept : ∀ e ∈ t, ((if e.1 == name then (name, a) else e : String × α)).1 = e.1 := by
      intro e member
      split
      · rename_i same
        exact (beq_iff_eq.mp same).symm
      · rfl
    rw [if_pos (has_iff.mpr present), if_pos (List.contains_iff_mem.mpr present), keys,
      List.map_map]
    exact List.map_congr_left kept
  · rw [if_neg (mt has_iff.mp present), if_neg (mt List.contains_iff_mem.mp present), keys,
      List.map_append]
    rfl

theorem keys_putAll : keys (t.putAll xs) = keys t ++ ((keys xs).removeAll (keys t)).eraseDups := by
  rw [← Text.foldl_adjoin]
  induction xs generalizing t with
  | nil => rfl
  | cons e xs ih =>
    change keys (putAll (t.put e.1 e.2) xs) = (keys xs).foldl Text.adjoin (Text.adjoin (keys t) e.1)
    rw [ih, keys_put]

/-- Names come in the order in which they were entered first. -/
theorem keys_ofList : keys (ofList xs) = (keys xs).eraseDups := by
  rw [ofList, keys_putAll]
  simp [keys, List.removeAll]

theorem ofList_distinct : (keys (ofList xs)).Nodup := by
  rw [keys_ofList]
  exact nodup_eraseDups _

theorem putAll_distinct (distinct : (keys t).Nodup) : (keys (t.putAll xs)).Nodup := by
  rw [keys_putAll]
  refine List.nodup_append.mpr ⟨distinct, nodup_eraseDups _, fun a old b new same => ?_⟩
  subst same
  exact (Text.mem_removeAll.mp new).2 old

/-- In which direction a table is looked through does not matter. -/
theorem lookup_turned (distinct : (keys t).Nodup) : t.reverse.lookup n = t.lookup n := by
  have turned : (keys t.reverse).Nodup := by
    rw [keys, List.map_reverse]
    exact (List.reverse_perm _).nodup_iff.mpr distinct
  refine Option.ext fun a => ?_
  rw [← mem_iff_lookup turned, ← mem_iff_lookup distinct, List.mem_reverse]

/-! ### Tables entered in place of their entries -/

/-- Tables with the same names in one order, and the same values, are the same. -/
theorem ext (distinct : (keys t).Nodup) (names : keys t = keys u)
    (values : ∀ n, t.lookup n = u.lookup n) : t = u := by
  induction t generalizing u with
  | nil =>
    have empty : keys u = [] := names.symm
    exact (List.map_eq_nil_iff.mp empty).symm
  | cons e t ih =>
    obtain ⟨fresh, distinct⟩ := List.nodup_cons.mp distinct
    cases u with
    | nil => cases names
    | cons d u =>
      obtain ⟨first, others⟩ := List.cons.inj names
      replace others : keys t = keys u := others
      have value := values e.1
      rw [lookup_entry, lookup_entry, if_pos rfl, if_pos first] at value
      have same : e = d := Prod.ext first (Option.some.inj value)
      subst same
      rw [ih distinct others fun n => ?_]
      have value := values n
      rw [lookup_entry, lookup_entry] at value
      by_cases here : n = e.1
      · subst here
        have fresh' : e.1 ∉ keys u := others ▸ fresh
        rw [lookup_eq_none.mpr fresh, lookup_eq_none.mpr fresh']
      · rwa [if_neg here, if_neg here] at value

theorem putAll_ofList (distinct : (keys t).Nodup) : t.putAll (ofList xs) = t.putAll xs := by
  refine ext (putAll_distinct distinct) ?_ fun n => ?_
  · rw [keys_putAll, keys_putAll, keys_ofList]
    congr 1
    unfold List.removeAll
    rw [filter_eraseDups, eraseDups_of_nodup (nodup_eraseDups _)]
  · rw [lookup_putAll, lookup_putAll, lookup_turned ofList_distinct, ofList, lookup_putAll]
    simp

theorem ofList_append : ofList (xs ++ ys) = (ofList xs).putAll ys :=
  List.foldl_append

/-! ### What a value depends on -/

theorem lookup_filter (p : String → Bool) (t : Table α) :
    (t.filter (p ·.1)).lookup n = if p n then t.lookup n else none := by
  induction t with
  | nil => simp
  | cons e t ih =>
    rw [List.filter_cons, lookup_entry]
    split
    · rename_i kept
      rw [lookup_entry, ih]
      by_cases same : n = e.1
      · subst same
        simp [kept]
      · simp [same]
    · rename_i dropped
      rw [ih]
      by_cases same : n = e.1
      · subst same
        simp [dropped]
      · simp [same]

theorem lookup_map {β : Type} (f : α → β) (t : Table α) :
    (t.map fun e => (e.1, f e.2)).lookup n = (t.lookup n).map f := by
  induction t with
  | nil => rfl
  | cons e t ih =>
    rw [List.map_cons, lookup_entry, lookup_entry, ih]
    by_cases same : n = e.1 <;> simp [same]

/-- The value under a name is decided by the entries of that name. -/
theorem lookup_ofList_congr (same : xs.filter (·.1 == n) = ys.filter (·.1 == n)) :
    (ofList xs).lookup n = (ofList ys).lookup n := by
  have here (entries : List (String × α)) :
      (ofList entries).lookup n = (entries.filter (·.1 == n)).reverse.lookup n := by
    rw [ofList, lookup_putAll, ← List.filter_reverse, lookup_filter (· == n)]
    simp
  rw [here, here, same]

end Table

end Premise
