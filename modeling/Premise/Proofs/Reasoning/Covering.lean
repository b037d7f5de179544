import Premise.Proofs.Reasoning.Running
import Premise.Proofs.Rule.Standing

/-!
Two arenas that the same entries were taken in, the first with fewer facts. The second does not hold
the same texts, but whatever step the first holds, the second holds one that stands for it, so that
what is found in the first is found in the second and what is missing there was missing. Main
statements: `Covers.takeEntries` and `Covers.proves`.
-/
namespace Premise

variable {limit : Option Nat} {speaker : Speaker} {s s' t t' : Derivation} {x y : Step}
  {premises known : List String} {f g c name text : String} {e : Entry}

namespace Derivation

theorem holds_iff_agree {r : Option Step} (looked : s.proofStep? f = .ok r) (member : x ∈ s.steps)
    (single : x.formulas = [g]) : x.Holds s.limit f ↔ Formula.Agree g f := by
  constructor
  · rintro ⟨h, inside, c, read, read'⟩
    rw [single, List.mem_singleton] at inside
    subst inside
    exact ⟨c, Formula.canonical_none read, Formula.canonical_none read'⟩
  · rintro ⟨c, means, means'⟩
    obtain ⟨d, read⟩ := proofStep?_readable looked member single
    obtain ⟨d', read', -⟩ := proofStep?_eq_ok.mp looked
    cases (Formula.canonical_none read).symm.trans means
    cases (Formula.canonical_none read').symm.trans means'
    exact ⟨g, by simp [single], c, read, read'⟩

/-! ### One run -/

/-- The premises stand in front, facts are literals, and the formula of each step reads and means a
premise or is firm. -/
structure Furnished (premises : List String) (s : Derivation) : Prop where
  literal : ∀ f ∈ s.facts, ∃ name, Literal name f
  front : ∀ (i : Nat) (p : String), premises[i]? = some p →
    s.steps[i]? = some { Step.proposition p with index := some i }
  single : ∀ x ∈ s.steps, ∃ f, x.formulas = [f] ∧ Formula.Reads f ∧ Backed s.facts premises f

namespace Furnished

theorem input (furnished : s.Furnished premises) (citable : s.Citable x) (holds : x.formulas = [f]) :
    Formula.Reads f ∧ Backed s.facts premises f := by
  rcases citable with member | ⟨g, fact, rfl⟩
  · obtain ⟨g, single, reads, backed⟩ := furnished.single x member
    cases single.symm.trans holds
    exact ⟨reads, backed⟩
  · cases holds
    obtain ⟨name, literal⟩ := furnished.literal f fact
    exact ⟨literal.reads, Or.inr (literal.firm fact)⟩

theorem apply (furnished : s.Furnished premises) {rule : Rule} {subtype : Value} {inputs : List Step}
    (citable : ∀ y ∈ inputs, s.Citable y) (applied : rule.apply s.limit inputs subtype = .ok x) :
    (s.push x).Furnished premises where
  literal := furnished.literal
  front i p stated := by
    have old := furnished.front i p stated
    rw [push_steps, List.getElem?_append_left (List.getElem?_eq_some_iff.mp old).1]
    exact old
  single := by
    obtain ⟨i, derived⟩ := Rule.apply_derives applied
    obtain ⟨fs, f, same, concluded, rfl⟩ := Inference.derive_ok_iff.mp derived
    have inputs_backed : ∀ g ∈ fs, Formula.Reads g ∧ Backed s.facts premises g := by
      intro g member
      obtain ⟨y, input, holds⟩ := Inference.exists_input same member
      exact furnished.input (citable y input) holds
    intro y member
    rcases List.mem_append.mp member with old | fresh
    · exact furnished.single y old
    · rw [List.mem_singleton.mp fresh]
      exact ⟨f, rfl, Inference.conclude_reads (fun g inside => (inputs_backed g inside).1) concluded,
        Inference.conclude_backed (fun g inside => (inputs_backed g inside).2)
          (fun g inside => (inputs_backed g inside).1) concluded⟩

theorem framed (furnished : s.Furnished premises) (frame : s.SameFrame t)
    (same : t.steps = s.steps) : t.Furnished premises where
  literal := by
    rw [frame.1]
    exact furnished.literal
  front := by
    rw [same]
    exact furnished.front
  single := by
    rw [same, frame.1]
    exact furnished.single

theorem take (furnished : s.Furnished premises) {number : Nat} {v : Value}
    (taken : (s.takeEntry speaker number v).result = .ok t) : t.Furnished premises := by
  refine takeEntry_keeps ?_ ?_ furnished taken
  · exact fun s t frame same furnished => furnished.framed frame same
  · exact fun s rule subtype inputs step furnished citable made => furnished.apply citable made

theorem found_readable (furnished : s.Furnished premises)
    (located : s.locate f = .ok (.found x)) (holds : x.formulas = [g]) :
    ∃ c, Formula.canonical s.limit g = .ok c := by
  rcases locate_found located with ⟨fact, rfl⟩ | ⟨-, looked⟩
  · cases holds
    obtain ⟨name, literal⟩ := furnished.literal f fact
    exact ⟨f, literal.canonical⟩
  · obtain ⟨k, first⟩ := proofStep?_some looked
    exact proofStep?_readable looked (List.mem_of_getElem? first.here) holds

theorem looked (furnished : s.Furnished premises) (looked : s.proofStep? f = .ok (some x)) :
    ∃ g, x.formulas = [g] ∧ Backed s.facts premises g ∧ Formula.Agree g f := by
  obtain ⟨k, first⟩ := proofStep?_some looked
  have member := List.mem_of_getElem? first.here
  obtain ⟨g, single, -, backed⟩ := furnished.single x member
  exact ⟨g, single, backed, (holds_iff_agree looked member single).mp first.holds⟩

theorem readable (furnished : s.Furnished premises) (unlimited : s.limit = none) :
    Readable s := by
  refine ⟨unlimited, fun f held => ?_⟩
  rcases List.mem_append.mp held with fact | stepped
  · obtain ⟨name, literal⟩ := furnished.literal f fact
    exact literal.reads
  · obtain ⟨x, member, inside⟩ := List.mem_flatMap.mp stepped
    obtain ⟨g, single, reads, -⟩ := furnished.single x member
    rw [single, List.mem_singleton] at inside
    exact inside ▸ reads

end Furnished

/-! ### Two runs -/

/-- The formula of the second step stands for that of the first. -/
def StepStands (known : List String) (x y : Step) : Prop :=
  ∃ f g, x.formulas = [f] ∧ y.formulas = [g] ∧ Stands known f g

theorem formulas_stand {inputs inputs' : List Step} {fs : List String}
    (alike : List.Forall₂ (StepStands known) inputs inputs')
    (same : inputs.map (·.formulas) = fs.map ([·])) : ∃ gs : List String,
      inputs'.map (·.formulas) = gs.map ([·]) ∧ List.Forall₂ (Stands known) fs gs := by
  induction alike generalizing fs with
  | nil =>
    cases fs with
    | nil => exact ⟨[], rfl, .nil⟩
    | cons f fs => cases same
  | cons first _ ih =>
    cases fs with
    | nil => cases same
    | cons f fs =>
      obtain ⟨single, rest⟩ := List.cons.inj same
      obtain ⟨f', g, single', holds, stands⟩ := first
      cases single.symm.trans single'
      obtain ⟨gs, same', later⟩ := ih rest
      exact ⟨g :: gs, by rw [List.map_cons, holds, same', List.map_cons], .cons stands later⟩

/-- The same entry was skipped, for no more than was missing before. -/
structure SkippedFor (before after : Skipped) : Prop where
  number : after.number = before.number
  rule : after.rule = before.rule
  subtype : after.subtype = before.subtype
  sources : after.sources = before.sources
  missing : after.missing ⊆ before.missing

/-- The second derivation knows all that the first knows, holds a step that stands for each step of
the first, and misses no more. -/
structure Covers (premises : List String) (s s' : Derivation) : Prop where
  fewer : s.Furnished premises
  more : s'.Furnished premises
  limit : s'.limit = s.limit
  facts : s.facts ⊆ s'.facts
  steps : ∀ x ∈ s.steps, ∃ y ∈ s'.steps, y.isProposition = x.isProposition ∧
    StepStands s'.facts x y
  missing : s'.missing ⊆ s.missing
  skipped : ∀ after ∈ s'.skipped, after.missing ≠ [] → ∃ before ∈ s.skipped, SkippedFor before after

namespace Covers

/-! #### What is available -/

theorem step (covers : Covers premises s s') (member : x ∈ s.steps) (inside : f ∈ x.formulas) :
    ∃ y ∈ s'.steps, ∃ g, y.formulas = [g] ∧ y.isProposition = x.isProposition ∧
      Formula.Reads f ∧ Stands s'.facts f g := by
  obtain ⟨y, member', same, f', g, single, single', stands⟩ := covers.steps x member
  obtain ⟨f'', again, reads, -⟩ := covers.fewer.single x member
  cases single.symm.trans again
  rw [single, List.mem_singleton] at inside
  subst inside
  exact ⟨y, member', g, single', same, reads, stands⟩

theorem literal_held (covers : Covers premises s s') (literal : Literal name text)
    (held : text ∈ s.formulas) : text ∈ s'.formulas := by
  rcases List.mem_append.mp held with fact | stepped
  · exact List.mem_append_left _ (covers.facts fact)
  · obtain ⟨x, member, inside⟩ := List.mem_flatMap.mp stepped
    obtain ⟨y, member', g, single, -, -, stands⟩ := covers.step member inside
    rcases stands with rfl | ⟨-, firm, c, read, read'⟩
    · exact List.mem_append_right _ (List.mem_flatMap.mpr ⟨y, member', by simp [single]⟩)
    · cases read.symm.trans literal.canonical
      exact List.mem_append_left _ (firm.2 name text literal read')

theorem resolvable (covers : Covers premises s s') (named : isIdentifier name = true)
    (settled : s.resolvable name = true) : s'.resolvable name = true := by
  rw [resolvable_iff named] at settled ⊢
  rcases settled with held | held
  · exact Or.inl (covers.literal_held ⟨named, Or.inl rfl⟩ held)
  · exact Or.inr (covers.literal_held ⟨named, Or.inr rfl⟩ held)

theorem unresolved (covers : Covers premises s s') {names names' : List String}
    (wanted : s.unresolved f = .ok names) (wanted' : s'.unresolved f = .ok names') :
    names' ⊆ names := by
  obtain ⟨atoms, mentioned, wanted⟩ := bind_eq_ok.mp wanted
  obtain ⟨atoms', mentioned', wanted'⟩ := bind_eq_ok.mp wanted'
  rw [covers.limit] at mentioned'
  cases mentioned.symm.trans mentioned'
  cases wanted
  cases wanted'
  refine List.map_subset _ fun name inside => ?_
  obtain ⟨member, open_⟩ := List.mem_filter.mp inside
  refine List.mem_filter.mpr ⟨member, ?_⟩
  have named := Formula.identifier_of_atomsOf mentioned member
  cases settled : s.resolvable name with
  | false => rfl
  | true => simp [covers.resolvable named settled] at open_

/-! #### Where sources are found -/

/-- Where a premise holds the formula, both arenas find the same one. -/
theorem same_premise (covers : Covers premises s s') {k k' : Nat} {r r' : Option Step}
    (stated : ∃ p ∈ premises, Formula.Agree p f)
    (looked : s.proofStep? f = .ok r) (looked' : s'.proofStep? f = .ok r')
    (first : s.Earliest f k x) (first' : s'.Earliest f k' y) : x = y := by
  obtain ⟨p, member, agree⟩ := stated
  obtain ⟨j, listed⟩ := List.mem_iff_getElem?.mp member
  have here := covers.fewer.front j p listed
  have here' := covers.more.front j p listed
  have holds := (holds_iff_agree looked (List.mem_of_getElem? here) rfl).mpr agree
  have holds' := (holds_iff_agree looked' (List.mem_of_getElem? here') rfl).mpr agree
  have within : k ≤ j := Nat.le_of_not_lt fun late => first.first j late _ here holds
  have within' : k' ≤ j := Nat.le_of_not_lt fun late => first'.first j late _ here' holds'
  have front : ∀ i ≤ j, s.steps[i]? = s'.steps[i]? := by
    intro i early
    have inside : i < premises.length :=
      Nat.lt_of_le_of_lt early (List.getElem?_eq_some_iff.mp listed).1
    have stated := List.getElem?_eq_getElem inside
    rw [covers.fewer.front i _ stated, covers.more.front i _ stated]
  have limit := covers.limit
  rcases Nat.lt_trichotomy k k' with early | rfl | late
  · exact absurd (limit ▸ first.holds) (first'.first k early x (front k within ▸ first.here))
  · have same := front k within
    rw [first.here, first'.here] at same
    exact Option.some.inj same
  · exact absurd (limit ▸ first'.holds) (first.first k' late y ((front k' within').trans first'.here))

theorem proofStep? (covers : Covers premises s s') {r : Option Step}
    (looked : s.proofStep? f = .ok (some x)) (looked' : s'.proofStep? f = .ok r) :
    ∃ y, r = some y ∧ StepStands s'.facts x y := by
  obtain ⟨k, first⟩ := proofStep?_some looked
  obtain ⟨g, single, backed, agree⟩ := covers.fewer.looked looked
  have held : ∃ y ∈ s'.steps, y.Holds s'.limit f := by
    obtain ⟨y, member, g', single', -, reads, stands⟩ :=
      covers.step (List.mem_of_getElem? first.here) (single ▸ List.mem_singleton_self g)
    refine ⟨y, member, (holds_iff_agree looked' member single').mpr ?_⟩
    exact (stands.agree reads).symm.trans agree
  obtain ⟨y, rfl⟩ := Option.isSome_iff_exists.mp ((proofStep?_isSome looked').mpr held)
  obtain ⟨k', first'⟩ := proofStep?_some looked'
  obtain ⟨g', single', backed', agree'⟩ := covers.more.looked looked'
  refine ⟨y, rfl, g, g', single, single', ?_⟩
  -- A premise that means the source is found in both arenas; otherwise what is found is firm.
  by_cases stated : ∃ p ∈ premises, Formula.Agree p f
  · have same := covers.same_premise stated looked looked' first first'
    subst same
    cases single.symm.trans single'
    exact Or.inl rfl
  · have firm : Firm s.facts g := backed.resolve_left fun ⟨p, inside, means⟩ =>
      stated ⟨p, inside, means.trans agree⟩
    have firm' : Firm s'.facts g' := backed'.resolve_left fun ⟨p, inside, means⟩ =>
      stated ⟨p, inside, means.trans agree'⟩
    exact Or.inr ⟨firm.1, firm', agree.trans agree'.symm⟩

theorem locate (covers : Covers premises s s') {l : Located} (located : s.locate f = .ok (.found x))
    (located' : s'.locate f = .ok l) : ∃ y, l = .found y ∧ StepStands s'.facts x y := by
  by_cases fact : f ∈ s'.facts
  · obtain ⟨name, literal⟩ := covers.more.literal f fact
    cases (locate_fact fact).symm.trans located'
    refine ⟨_, rfl, ?_⟩
    rcases locate_found located with ⟨-, rfl⟩ | ⟨-, looked⟩
    · exact ⟨f, f, rfl, rfl, Or.inl rfl⟩
    · obtain ⟨g, single, -, agree⟩ := covers.fewer.looked looked
      exact ⟨g, f, single, rfl, Or.inr ⟨literal.operand agree, literal.firm fact, agree⟩⟩
  · rcases locate_found located with ⟨known, -⟩ | ⟨-, looked⟩
    · exact absurd (covers.facts known) fact
    · obtain ⟨r, looked', found⟩ := locate_unknown fact located'
      obtain ⟨y, rfl, stands⟩ := covers.proofStep? looked looked'
      exact ⟨y, found y rfl, stands⟩

theorem names (covers : Covers premises s s') {l l' : Located} (located : s.locate f = .ok l)
    (located' : s'.locate f = .ok l') : l'.names ⊆ l.names := by
  cases l' with
  | found y => exact List.nil_subset _
  | nowhere => exact List.nil_subset _
  | unsettled names =>
    have lost : ∀ x, l ≠ .found x := by
      rintro x rfl
      obtain ⟨y, found, -⟩ := covers.locate located located'
      cases found
    exact covers.unresolved (locate_names located lost) (locate_names located' fun y => by simp)

/-! #### Fates -/

theorem found (covers : Covers premises s s') {sources : List String} {inputs : List Step}
    {located : List Located} (found : sources.mapM s.locate = .ok (inputs.map .found))
    (each : sources.mapM s'.locate = .ok located) : ∃ inputs', located = inputs'.map .found ∧
      List.Forall₂ (StepStands s'.facts) inputs inputs' := by
  have before := List.forall₂_map_right_iff.mp (mapM_ok_iff.mp found)
  have after := mapM_ok_iff.mp each
  clear found each
  induction before generalizing located with
  | nil =>
    cases after
    exact ⟨[], rfl, .nil⟩
  | cons here _ ih =>
    cases after with
    | cons here' later =>
      obtain ⟨y, rfl, stands⟩ := covers.locate here here'
      obtain ⟨inputs', rfl, rest⟩ := ih later
      exact ⟨y :: inputs', rfl, .cons stands rest⟩

/-- The rule that made a step of what was found makes one of what is found now, and that stands for
the step. -/
theorem applies (covers : Covers premises s s') {located : List Located} (applies : e.Applies s x)
    (each : e.sources.mapM s'.locate = .ok located) : ∃ y, e.Applies s' y ∧
      y.isProposition = x.isProposition ∧ StepStands s'.facts x y := by
  obtain ⟨inputs, found, inferred⟩ := applies
  obtain ⟨rule, i, named, count, meant, derived⟩ := Entry.infer_ok_iff.mp inferred
  obtain ⟨fs, f, same, concluded, rfl⟩ := Inference.derive_ok_iff.mp derived
  obtain ⟨inputs', rfl, alike⟩ := covers.found found each
  obtain ⟨gs, same', stands⟩ := formulas_stand alike same
  have reads : ∀ g ∈ fs, Formula.Reads g := by
    intro g member
    obtain ⟨y, input, holds⟩ := Inference.exists_input same member
    exact (covers.fewer.input (Entry.found_citable found y input) holds).1
  have readable : ∀ g ∈ gs, ∃ c, Formula.canonical s.limit g = .ok c := by
    intro g member
    obtain ⟨y, input, holds⟩ := Inference.exists_input same' member
    obtain ⟨source, -, located⟩ := mem_of_mapM each (.found y) (List.mem_map_of_mem input)
    rw [← covers.limit]
    exact covers.more.found_readable located holds
  obtain ⟨g, concluded', stands⟩ := Inference.conclude_stands stands reads readable concluded
  have derived' : i.derive s'.limit inputs' = .ok (i.stepOf inputs' g) := by
    rw [covers.limit]
    exact Inference.derive_ok_iff.mpr ⟨gs, g, same', concluded', rfl⟩
  have inferred' : e.infer s' inputs' = .ok (i.stepOf inputs' g) :=
    Entry.infer_ok_iff.mpr ⟨rule, i, named, alike.length_eq ▸ count, meant, derived'⟩
  refine ⟨_, ⟨inputs', each, inferred'⟩, ?_, f, g, rfl, rfl, stands⟩
  rw [Inference.stepOf_derived, Inference.stepOf_derived]

theorem applied (covers : Covers premises s s') {fate : Fate}
    (decided : (e.fate speaker s).result = .ok (.applied x))
    (decided' : (e.fate speaker s').result = .ok fate) : ∃ y, fate = .applied y ∧
      y.isProposition = x.isProposition ∧ StepStands s'.facts x y := by
  have applies : e.Applies s x := by
    rcases Entry.fate_ok decided with ⟨step, same, applies⟩ | other | ⟨record, other⟩
    · cases same
      exact applies
    · cases other
    · cases other
  obtain ⟨located, each⟩ := Entry.fate_located decided'
  obtain ⟨y, applies', same, stands⟩ := covers.applies applies each
  have again := (Entry.fate_applied speaker applies').symm.trans decided'
  exact ⟨y, (Except.ok.inj again).symm, same, stands⟩

theorem skips (covers : Covers premises s s') {fate : Fate} {after : Skipped}
    (decided : (e.fate speaker s).result = .ok fate)
    (decided' : (e.fate speaker s').result = .ok (.skipped after)) (wanting : after.missing ≠ []) :
    ∃ before, fate = .skipped before ∧ SkippedFor before after := by
  obtain ⟨located', each', rfl⟩ := Entry.fate_skipped decided' wanting
  obtain ⟨located, each⟩ := Entry.fate_located decided
  have fewer : located'.flatMap Located.names ⊆ located.flatMap Located.names := by
    intro name member
    obtain ⟨l', inside', named'⟩ := List.mem_flatMap.mp member
    obtain ⟨f, source, looked'⟩ := mem_of_mapM each' l' inside'
    obtain ⟨l, inside, looked⟩ := mapM_ok_mem each f source
    exact List.mem_flatMap.mpr ⟨l, inside, covers.names looked looked' named'⟩
  have missing : located.flatMap Located.names ≠ [] :=
    fun none => wanting (List.subset_nil.mp (none ▸ fewer))
  have again := (Entry.fate_missing speaker each missing).symm.trans decided
  exact ⟨_, (Except.ok.inj again).symm, rfl, rfl, rfl, rfl, fewer⟩

/-! #### Entries -/

theorem settle (covers : Covers premises s s') {fate fate' : Fate}
    (decided : (e.fate speaker s).result = .ok fate)
    (decided' : (e.fate speaker s').result = .ok fate')
    (fewer : (fate.settle s).Furnished premises) (more : (fate'.settle s').Furnished premises) :
    Covers premises (fate.settle s) (fate'.settle s') where
  fewer := fewer
  more := more
  limit := by
    rw [(fate.settle_frame s).2, (fate'.settle_frame s').2]
    exact covers.limit
  facts := by
    rw [(fate.settle_frame s).1, (fate'.settle_frame s').1]
    exact covers.facts
  steps := by
    rw [(fate'.settle_frame s').1]
    intro x member
    rcases (settle_steps fate).mp member with old | ⟨x, rfl, rfl⟩
    · obtain ⟨y, held, same, stands⟩ := covers.steps x old
      exact ⟨y, (settle_steps fate').mpr (Or.inl held), same, stands⟩
    · obtain ⟨y, rfl, same, stands⟩ := covers.applied decided decided'
      exact ⟨s'.number y, (settle_steps _).mpr (Or.inr ⟨y, rfl, rfl⟩), same, stands⟩
  missing := by
    intro name member
    refine (settle_missing fate).mpr ?_
    rcases (settle_missing fate').mp member with old | ⟨after, rfl, wanted⟩
    · exact Or.inl (covers.missing old)
    · obtain ⟨before, rfl, same⟩ := covers.skips decided decided' (List.ne_nil_of_mem wanted)
      exact Or.inr ⟨before, rfl, same.missing wanted⟩
  skipped := by
    intro after member wanting
    rcases (settle_skipped fate').mp member with old | rfl
    · obtain ⟨before, held, same⟩ := covers.skipped after old wanting
      exact ⟨before, (settle_skipped fate).mpr (Or.inl held), same⟩
    · obtain ⟨before, rfl, same⟩ := covers.skips decided decided' wanting
      exact ⟨before, (settle_skipped _).mpr (Or.inr rfl), same⟩

theorem take (covers : Covers premises s s') {number : Nat} {v : Value}
    (taken : (s.takeEntry speaker number v).result = .ok t)
    (taken' : (s'.takeEntry speaker number v).result = .ok t') : Covers premises t t' := by
  have fewer := covers.fewer.take taken
  have more := covers.more.take taken'
  rcases takeEntry_ok_iff.mp taken with ⟨unread, rfl⟩ | ⟨e, fate, read, decided, rfl⟩
  · rcases takeEntry_ok_iff.mp taken' with ⟨-, rfl⟩ | ⟨e, fate, read, -, -⟩
    · exact covers
    · cases unread.symm.trans read
  · rcases takeEntry_ok_iff.mp taken' with ⟨unread, -⟩ | ⟨e', fate', read', decided', rfl⟩
    · cases unread.symm.trans read
    · cases read.symm.trans read'
      exact covers.settle decided decided' fewer more

theorem takeEntries (covers : Covers premises s s') {number : Nat} {entries : List Value}
    (taken : (s.takeEntries speaker number entries).2.result = .ok ())
    (taken' : (s'.takeEntries speaker number entries).2.result = .ok ()) :
    Covers premises (s.takeEntries speaker number entries).1
      (s'.takeEntries speaker number entries).1 := by
  induction entries generalizing s s' number with
  | nil => exact covers
  | cons v rest ih =>
    rw [Derivation.takeEntries] at taken taken' ⊢
    rw [Derivation.takeEntries]
    cases first : (s.takeEntry speaker number v).result with
    | error failure =>
      rw [first] at taken
      cases taken
    | ok t =>
      cases first' : (s'.takeEntry speaker number v).result with
      | error failure =>
        rw [first'] at taken'
        cases taken'
      | ok t' =>
        rw [first] at taken
        rw [first'] at taken'
        exact ih (covers.take first first') taken taken'

/-! #### What is proved -/

theorem established (covers : Covers premises s s') (held : f ∈ s.established) :
    ∃ g ∈ s'.established, Formula.Agree f g := by
  rcases List.mem_append.mp held with fact | stepped
  · obtain ⟨name, literal⟩ := covers.fewer.literal f fact
    exact ⟨f, List.mem_append_left _ (covers.facts fact), literal.agree⟩
  · obtain ⟨x, derived, inside⟩ := List.mem_flatMap.mp stepped
    obtain ⟨member, derived⟩ := List.mem_filter.mp derived
    obtain ⟨y, member', g, single, same, reads, stands⟩ := covers.step member inside
    have kept : y ∈ s'.steps.filter (!·.isProposition) :=
      List.mem_filter.mpr ⟨member', by rw [same]; exact derived⟩
    exact ⟨g, List.mem_append_right _ (List.mem_flatMap.mpr ⟨y, kept, by simp [single]⟩),
      stands.agree reads⟩

theorem not_unproved (covers : Covers premises s s') (proved : s.proves? f = .ok true) :
    s'.proves? f ≠ .ok false := by
  intro unproved
  obtain ⟨h, held, c, read, means⟩ := exists_of_proves? proved
  obtain ⟨g, held', agree⟩ := covers.established held
  obtain ⟨c', means', others⟩ := proves?_eq_false.mp unproved
  obtain ⟨d, read', other⟩ := others g held'
  rw [covers.limit] at means'
  cases means.symm.trans means'
  obtain ⟨d', left, right⟩ := agree
  cases left.symm.trans (Formula.canonical_none read)
  cases right.symm.trans (Formula.canonical_none read')
  exact other rfl

/-- What is proved in the first arena is proved in the second, unless some formula there nests too
deeply to be read. -/
theorem proves (covers : Covers premises s s') (proved : s.proves? f = .ok true) :
    s'.proves? f = .ok true ∨ s'.limit ≠ none ∧ ∃ e, s'.proves? f = .error e := by
  cases decided : s'.proves? f with
  | ok b =>
    cases b with
    | true => exact Or.inl rfl
    | false => exact absurd decided (covers.not_unproved proved)
  | error e =>
    refine Or.inr ⟨fun unlimited => ?_, e, rfl⟩
    obtain ⟨c, means, -⟩ := proves?_eq_ok.mp proved
    obtain ⟨b, total⟩ := proves?_total unlimited (.of_canonical means)
      (covers.more.readable unlimited).reads
    cases decided.symm.trans total

end Covers

end Derivation

end Premise
