import Premise.Proofs.Search.Bounds

/-!
Searching with one formula more. A round passes over what is known already, so that a formula that
was added can stand in the way of the very step that would have derived it; every other step of a
proof can still be taken. Main statement: `search_survives_addition`.
-/
namespace Premise.Derivation

variable {s s' t t' : Derivation} {f target : String} {limits limits' : Limits} {r r' : SearchResult}
  {fs : List String} {n : Nat} {maxSteps maxSteps' : Int}

/-! ### One formula more -/

/-- One derivation holds what another does and `f` besides, wherever that stands. -/
structure Wider (s : Derivation) (f : String) (s' : Derivation) : Prop where
  limit : s'.limit = s.limit
  formulas : ∀ g, g ∈ s'.formulas ↔ g ∈ s.formulas ∨ g = f
  established : ∀ g ∈ s.established, g ∈ s'.established
  held : ∀ g, [g] ∈ s.steps.map (·.formulas) → [g] ∈ s'.steps.map (·.formulas)

theorem wider_addFact (s : Derivation) (f : String) : Wider s f (s.addFact f) where
  limit := rfl
  formulas := fun _ => mem_addFact_formulas
  established := fun _ old => mem_addFact_established.mpr (Or.inl old)
  held := fun _ old => old

theorem wider_premise (s : Derivation) (f : String) :
    Wider s f (s.push (Step.proposition f)) where
  limit := rfl
  formulas := fun g => by simp [push_formulas, Step.proposition]
  established := fun g old => by rwa [premise_established]
  held := fun g old => by simp [List.mem_map.mp old]

namespace Wider

theorem readable (wider : Wider s f s') (readable : ∀ g ∈ s.formulas, Formula.Reads g)
    (reads : Formula.Reads f) : ∀ g ∈ s'.formulas, Formula.Reads g := by
  intro g member
  rcases (wider.formulas g).mp member with old | rfl
  · exact readable g old
  · exact reads

theorem mem_known (wider : Wider s f s') {g : String} :
    g ∈ s'.known ↔ g ∈ s.known ∨ g = Formula.stripDoubleNegation f := by
  simp only [Derivation.mem_known, wider.formulas, or_and_right, exists_or, exists_eq_left]
  rw [eq_comm (b := g)]

theorem unresolved (wider : Wider s f s') (resolved : s.unresolved target = .ok []) :
    s'.unresolved target = .ok [] := by
  obtain ⟨names, named, settled⟩ := bind_eq_ok.mp resolved
  have all : ∀ name ∈ names, s.resolvable name = true := by
    simpa [pure, Except.pure] using settled
  refine unresolved_eq_nil (wider.limit ▸ named) fun name member => ?_
  have identifier := Formula.identifier_of_atomsOf named member
  rw [resolvable_iff identifier, wider.formulas, wider.formulas]
  exact ((resolvable_iff identifier).mp (all name member)).imp Or.inl Or.inl

/-! ### Chains -/

/-- What a chain adds where `f` is known already. -/
def others (f : String) (fs : List String) : List String :=
  fs.filter (· ≠ Formula.stripDoubleNegation f)

theorem novel (wider : Wider s f s') (novel : Novel s fs) : Novel s' (others f fs) where
  joined := fun g member => novel.joined g (List.mem_filter.mp member).1
  new := by
    intro g member known
    obtain ⟨inside, different⟩ := List.mem_filter.mp member
    rcases wider.mem_known.mp known with old | same
    · exact novel.new g inside old
    · simp [same] at different
  distinct := novel.distinct.filter _

theorem makes (wider : Wider s f s') (grown : Grown s fs t) (grown' : Grown s' (others f fs) t')
    (spare : Formula.stripDoubleNegation f ∈ fs →
      [Formula.stripDoubleNegation f] ∈ s'.steps.map (·.formulas))
    {i : Inference} {inputs : List Step} {g : String} (makes : t.Makes i inputs g) :
    ∃ inputs', t'.Makes i inputs' g := by
  obtain ⟨hs, held, found⟩ := exists_makes_iff.mp ⟨inputs, makes⟩
  rw [exists_makes_iff, grown'.limit, wider.limit, ← grown.limit]
  refine ⟨hs, fun h member => ?_, found⟩
  have there := held h member
  rw [grown.map_formulas] at there
  rw [grown'.map_formulas]
  rcases List.mem_append.mp there with old | added
  · exact List.mem_append_left _ (wider.held h old)
  · have inside : h ∈ fs := by simpa using added
    -- The step that the chain derived `f` in is missing, and the spare one serves.
    by_cases same : h = Formula.stripDoubleNegation f
    · subst same
      exact List.mem_append_left _ (spare inside)
    · exact List.mem_append_right _ (by simp [others, inside, same])

/-- A chain can be followed where `f` is known already, but for the round that derives `f`. -/
theorem follow (wider : Wider s f s') (readable : ∀ g ∈ s.formulas, Formula.Reads g)
    (chain : Chain maxSteps s n t) (grown : Grown s fs t)
    (spare : Formula.stripDoubleNegation f ∈ fs →
      [Formula.stripDoubleNegation f] ∈ s'.steps.map (·.formulas))
    (room : (s'.steps.length : Int) + n ≤ maxSteps') :
    ∃ t', Chain maxSteps' s' (others f fs).length t' ∧ Grown s' (others f fs) t' := by
  induction chain generalizing fs with
  | start =>
    obtain rfl := grown.unique (.refl s)
    exact ⟨s', .start, .refl s'⟩
  | @next n t u chain member ih =>
    obtain ⟨gs, count, before, novel⟩ := chain.grown readable
    obtain ⟨-, i, inputs, g, makes, new, rfl⟩ := mem_expand_iff.mp member
    have whole : fs = gs ++ [g] := grown.unique (before.push rfl (i.stepOf_derived inputs g))
    have spare' : Formula.stripDoubleNegation f ∈ gs →
        [Formula.stripDoubleNegation f] ∈ s'.steps.map (·.formulas) :=
      fun inside => spare (by simp [whole, inside])
    obtain ⟨t', chain', after⟩ := ih before spare' (by omega)
    -- The round that derives `f` itself is left out.
    by_cases same : g = Formula.stripDoubleNegation f
    · have passed : others f fs = others f gs := by simp [others, whole, same]
      rw [passed]
      exact ⟨t', chain', after⟩
    · have kept : others f fs = others f gs ++ [g] := by simp [others, whole, same]
      obtain ⟨inputs', makes'⟩ := wider.makes before after spare' makes
      have joined := makes_joined (before.reads novel readable) makes new
      have new' : Formula.stripDoubleNegation g ∉ t'.known := by
        rw [joined.strip, before.mem_known novel, not_or] at new
        rw [joined.strip, after.mem_known (wider.novel novel), wider.mem_known]
        simp [new.1, new.2, same, others]
      have room' : (t'.steps.length : Int) < maxSteps' := by
        have long := after.length_steps
        have fewer : (others f gs).length ≤ gs.length := List.length_filter_le _ _
        omega
      have child := mem_expand_iff.mpr ⟨room', i, inputs', g, makes', new', rfl⟩
      rw [kept, List.length_append, List.length_singleton]
      exact ⟨_, chain'.next child, after.push rfl (i.stepOf_derived inputs' g)⟩

end Wider

/-! ### Searches -/

/-- The formulas of the steps that a derivation has beyond another. -/
def added (s t : Derivation) : List String :=
  (t.steps.drop s.steps.length).flatMap (·.formulas)

theorem Grown.added (grown : Grown s fs t) : s.added t = fs := by
  obtain ⟨more, arena, single, -⟩ := grown.steps
  rw [Derivation.added, arena, List.drop_left, flatMap_formulas single]

theorem not_unproved {g c : String} (held : g ∈ s.established)
    (read : Formula.canonical s.limit g = .ok c)
    (read' : Formula.canonical s.limit target = .ok c) :
    s.proves? target ≠ .ok false := by
  intro unproved
  obtain ⟨c', read'', different⟩ := proves?_eq_false.mp unproved
  obtain ⟨d, readHeld, apart⟩ := different g held
  rw [read] at readHeld
  rw [read'] at read''
  cases readHeld
  cases read''
  exact apart rfl

/-- A search that does not give up succeeds where a chain within its depth limit ends in a proof. -/
theorem proven_of_chain (readable : ∀ g ∈ s.formulas, Formula.Reads g)
    (found : s.search target limits = .ok r) (whole : r.halt.gaveUp = false)
    (resolved : s.proves? target = .ok false → s.unresolved target = .ok [])
    (chain : Chain limits.maxSteps s n t) (shallow : (n : Int) ≤ max limits.maxDepth 0)
    (proves : t.proves? target ≠ .ok false) : r.proven = true := by
  rcases search_ends found with ⟨-, rfl⟩ | ⟨names, unproved, missing, some, -⟩ |
    ⟨unproved, -, ends, -⟩
  · rfl
  · rw [resolved unproved] at missing
    cases missing
    exact absurd rfl some
  · cases ends with
    | emptied _ frontier =>
      exact absurd (frontier.unproved readable chain (by simp) (Or.inl shallow)) proves
    | iterationLimit | queueLimit => cases whole
    | proved => rfl

theorem proven_of_fact {c : String} (readable : ∀ g ∈ (s.addFact f).formulas, Formula.Reads g)
    (found : (s.addFact f).search target limits = .ok r) (whole : r.halt.gaveUp = false)
    (read : Formula.canonical s.limit f = .ok c)
    (read' : Formula.canonical s.limit target = .ok c) : r.proven = true := by
  have held : f ∈ (s.addFact f).established := mem_addFact_established.mpr (Or.inr rfl)
  have proves := not_unproved held read read'
  exact proven_of_chain readable found whole (fun unproved => absurd unproved proves) .start
    (by omega) proves

/-- What a derivation proves, up to the formula that was added, a wider one does as well. -/
theorem Wider.proves (wider : Wider s f s') (grown : Grown s fs t)
    (grown' : Grown s' (Wider.others f fs) t') (proves : t.proves? target = .ok true)
    (spare : Formula.stripDoubleNegation f ∈ fs →
      Formula.canonical s.limit (Formula.stripDoubleNegation f) ≠ Formula.canonical s.limit target) :
    t'.proves? target ≠ .ok false := by
  obtain ⟨g, member, c, read, read'⟩ := exists_of_proves? proves
  have limit : t'.limit = t.limit := by rw [grown'.limit, wider.limit, grown.limit]
  refine not_unproved (g := g) (c := c) ?_ (limit ▸ read) (limit ▸ read')
  rw [grown.established] at member
  rw [grown'.established]
  rcases List.mem_append.mp member with old | inside
  · exact List.mem_append_left _ (wider.established g old)
  · refine List.mem_append_right _ (List.mem_filter.mpr ⟨inside, ?_⟩)
    rw [decide_eq_true_iff]
    rintro rfl
    rw [grown.limit] at read read'
    exact spare inside (read.trans read'.symm)

/-- A search that found a proof finds one with `f` known besides, as a fact or as a premise, within
bounds that are not hit. The proof must not have derived `f` itself, up to double negations at its
front, unless the fact `f` is the target or the premise `f` can be used in its place. -/
theorem search_survives_addition (s s' t : Derivation) (target f : String) (limits limits' : Limits)
    (r : SearchResult) (readable : ∀ g ∈ s.formulas, Formula.Reads g)
    (reads : Formula.Reads target) (reads' : Formula.Reads f)
    (found : s.search target limits = .ok r) (proof : r.state = some t)
    (wider : s' = s.addFact f ∨ s' = s.push (Step.proposition f))
    (harmless : Formula.stripDoubleNegation f ∉ s.added t ∨
      (s' = s.addFact f ∧ Formula.canonical s.limit f = Formula.canonical s.limit target) ∨
      (s' = s.push (Step.proposition f) ∧ Formula.stripDoubleNegation f = f ∧
        Formula.canonical s.limit f ≠ Formula.canonical s.limit target))
    (deep : limits.maxDepth ≤ limits'.maxDepth)
    (room : (s'.steps.length : Int) + r.depth ≤ limits'.maxSteps) :
    (s.limit = none → ∃ r', s'.search target limits' = .ok r') ∧
    ∀ r', s'.search target limits' = .ok r' → r'.halt.gaveUp = false → r'.proven = true := by
  have wide : Wider s f s' := by
    rcases wider with rfl | rfl
    · exact wider_addFact s f
    · exact wider_premise s f
  have readable' := wide.readable readable reads'
  refine ⟨fun unlimited => search_total (wide.limit.trans unlimited) readable' reads, ?_⟩
  intro r' found' whole
  obtain ⟨chain, proves, shallow, start⟩ := search_proven found proof
  obtain ⟨fs, count, grown, novel⟩ := chain.grown readable
  have resolved : s'.proves? target = .ok false → s'.unresolved target = .ok [] := by
    intro unproved
    rcases start with already | resolved
    · exact absurd unproved (wide.proves (.refl s) (.refl s') already (by simp))
    · exact wide.unresolved resolved
  by_cases same : s' = s.addFact f ∧ Formula.canonical s.limit f = Formula.canonical s.limit target
  · obtain ⟨rfl, same⟩ := same
    obtain ⟨-, -, c, -, read⟩ := exists_of_proves? proves
    rw [grown.limit] at read
    exact proven_of_fact readable' found' whole (same.trans read) read
  -- Where the proof derives `f` it can use the premise.
  have spare : Formula.stripDoubleNegation f ∈ fs →
      [Formula.stripDoubleNegation f] ∈ s'.steps.map (·.formulas) ∧
      Formula.canonical s.limit (Formula.stripDoubleNegation f) ≠
        Formula.canonical s.limit target := by
    intro derived
    rw [grown.added] at harmless
    rcases harmless with apart | fact | ⟨rfl, verbatim, other⟩
    · exact absurd derived apart
    · exact absurd fact same
    · rw [verbatim]
      exact ⟨by simp [Step.proposition], other⟩
  obtain ⟨t', chain', grown'⟩ := wide.follow readable chain grown (fun d => (spare d).1) room
  have fewer : (Wider.others f fs).length ≤ fs.length := List.length_filter_le _ _
  exact proven_of_chain readable' found' whole resolved chain' (by omega)
    (wide.proves grown grown' proves fun d => (spare d).2)

/-- Bounds under which one round is made and nothing else is cut short. -/
def oneRound : Limits := { maxDepth := 1, maxSteps := 10 }

theorem oneRound_whole (found : s.search target oneRound = .ok r) : r.halt.gaveUp = false :=
  search_whole (by decide) (by decide) found

theorem conjunction_reads : Formula.Reads "(p ∧ p)" :=
  ⟨.binary .and (.atom "p") (.atom "p"), by cbv⟩

theorem conjunction_found :
    ∃ r, (ofName "p").search "(p ∧ p)" oneRound = .ok r ∧ r.proven = true := by
  have readable := ofName_readable (show isIdentifier "p" = true by decide)
  obtain ⟨r, found⟩ : ∃ r, (ofName "p").search "(p ∧ p)" oneRound = .ok r :=
    search_total (ofName_limit "p") readable conjunction_reads
  refine ⟨r, found, ?_⟩
  have makes : (ofName "p").Makes (.compose .and) ((ofName "p").steps ++ (ofName "p").steps)
      "(p ∧ p)" := ⟨["p", "p"], by simp, rfl, rfl⟩
  have new : Formula.stripDoubleNegation "(p ∧ p)" ∉ (ofName "p").known := by decide
  have child := mem_expand_iff.mpr ⟨show _ < oneRound.maxSteps by decide, _, _, _, makes, new, rfl⟩
  have grown := (Grown.refl (ofName "p")).push (f := "(p ∧ p)") rfl
    (Inference.stepOf_derived (.compose .and) ((ofName "p").steps ++ (ofName "p").steps) _)
  have held := List.mem_append_right (ofName "p").established (List.mem_singleton_self "(p ∧ p)")
  rw [← List.nil_append ["(p ∧ p)"], ← grown.established] at held
  have resolved : (ofName "p").unresolved "(p ∧ p)" = .ok [] := by cbv
  have canonical : Formula.canonical none "(p ∧ p)" = .ok "(p ∧ p)" := by cbv
  exact proven_of_chain readable found (oneRound_whole found) (fun _ => resolved)
    (Chain.start.next child) (by decide) (not_unproved held canonical canonical)

theorem conjunction_survives_premise :
    ∃ r', ((ofName "p").push (Step.proposition "q")).search "(p ∧ p)" oneRound = .ok r' ∧
      r'.proven = true := by
  obtain ⟨r, found, proven⟩ := conjunction_found
  obtain ⟨t, proof⟩ := Option.isSome_iff_exists.mp proven
  have readable := ofName_readable (show isIdentifier "p" = true by decide)
  have name : Formula.parse none "q" = .ok (.atom "q") := by cbv
  have apart : Formula.stripDoubleNegation "q" ∉ (ofName "p").added t := by
    obtain ⟨fs, -, grown, novel⟩ := (search_proven found proof).1.grown readable
    rw [grown.added]
    intro derived
    obtain ⟨op, a, b, -, -, same⟩ := novel.joined _ derived
    have chars := congrArg String.toList same
    rw [Formula.joinText_toList] at chars
    cases chars
  have room : (((ofName "p").push (Step.proposition "q")).steps.length : Int) + r.depth ≤
      oneRound.maxSteps := by
    have shallow := (search_proven found proof).2.2.1
    have one : max oneRound.maxDepth 0 = 1 := rfl
    have ten : oneRound.maxSteps = 10 := rfl
    have two : ((ofName "p").push (Step.proposition "q")).steps.length = 2 := rfl
    omega
  obtain ⟨total, survives⟩ := search_survives_addition (ofName "p") _ t "(p ∧ p)" "q" oneRound
    oneRound r readable conjunction_reads ⟨_, name⟩ found proof (Or.inr rfl) (Or.inl apart)
    (Int.le_refl _) room
  obtain ⟨r', found'⟩ := total rfl
  exact ⟨r', found', survives r' found' (oneRound_whole found')⟩

/-- The name `p` is known, and its conjunction with itself is under consideration. -/
def considered : Derivation :=
  (ofName "p").push (Step.proposition "(p ∧ p)")

theorem considered_held {g : String} (held : [g] ∈ considered.steps.map (·.formulas)) :
    ∃ t : Formula, t.Proper ∧ t.normalize = t ∧ t.render = g ∧ ∀ a c, t ≠ .binary .implies a c := by
  have name : (Formula.atom "p").Proper := Formula.proper_atom.mpr (by decide)
  have either : g = "p" ∨ g = "(p ∧ p)" := by
    simpa [considered, ofName, Step.ofFact, Step.proposition, number] using held
  rcases either with rfl | rfl
  · exact ⟨.atom "p", name, rfl, rfl, by simp⟩
  · exact ⟨.binary .and (.atom "p") (.atom "p"), Formula.proper_binary.mpr ⟨name, name⟩, rfl,
      by decide, by simp⟩

/-- What one round derives here is written as it is read. -/
theorem considered_makes {i : Inference} {inputs : List Step} {f : String}
    (makes : considered.Makes i inputs f)
    (new : Formula.stripDoubleNegation f ∉ considered.known) :
    Formula.canonical none f = .ok f := by
  rcases makes_new makes new with ⟨op, a, b, first, second, rfl⟩ | ⟨a, only, contraposed⟩
  · obtain ⟨t, proper, normal, rfl, -⟩ := considered_held first
    obtain ⟨t', proper', normal', rfl, -⟩ := considered_held second
    have together : (Formula.binary op t t').Proper := Formula.proper_binary.mpr ⟨proper, proper'⟩
    have whole := Formula.canonical_of_parse (Formula.parse_render together)
    rwa [Formula.normalize, normal, normal', Formula.render] at whole
  · obtain ⟨t, proper, normal, rfl, other⟩ := considered_held only
    obtain ⟨l, r, read, -⟩ := Inference.contrapositive_ok_iff.mp contraposed
    rw [show considered.limit = none from rfl, Formula.read_none_ok (Formula.parse_render proper),
      normal, Except.ok.injEq] at read
    exact absurd read (other l r)

/-- The conjunction is known here, so that nothing new can be the conjunction as it is written. -/
theorem considered_round {u : Derivation} (member : u ∈ considered.expand maxSteps) :
    u.proves? "(p ∧ p)" ≠ .ok true := by
  intro proves
  obtain ⟨-, i, inputs, f, makes, new, rfl⟩ := mem_expand_iff.mp member
  obtain ⟨g, inside, c, read, read'⟩ := exists_of_proves? proves
  have target : Formula.canonical none "(p ∧ p)" = .ok "(p ∧ p)" := by cbv
  have name : Formula.canonical none "p" = .ok "p" := by cbv
  have premises : considered.established = ["p", "p"] := by decide
  have grown := (Grown.refl considered).push (f := f) rfl (i.stepOf_derived inputs f)
  rw [grown.established, premises] at inside
  rw [grown.limit, show considered.limit = none from rfl] at read read'
  cases target.symm.trans read'
  have either : g = "p" ∨ g = f := by simpa using inside
  rcases either with rfl | rfl
  · have same := Except.ok.inj (name.symm.trans read)
    simp at same
  · cases (considered_makes makes new).symm.trans read
    exact new (by decide)

/-- A premise that is the target itself is not established, and as it is known it is not derived any
more either. -/
theorem target_lost_to_premise :
    let s := ofName "p"
    let s' := s.push (Step.proposition "(p ∧ p)")
    (∀ f ∈ s.formulas, Formula.Reads f) ∧ Formula.Reads "(p ∧ p)" ∧
    (s'.steps.length : Int) + oneRound.maxDepth ≤ oneRound.maxSteps ∧
    (∃ r, s.search "(p ∧ p)" oneRound = .ok r ∧ r.proven = true ∧ r.halt.gaveUp = false) ∧
    ∃ r', s'.search "(p ∧ p)" oneRound = .ok r' ∧ r'.proven = false ∧ r'.halt.gaveUp = false := by
  intro s s'
  have readable : ∀ f ∈ s.formulas, Formula.Reads f := ofName_readable (by decide)
  obtain ⟨r, found, proven⟩ := conjunction_found
  refine ⟨readable, conjunction_reads, by decide, ⟨r, found, proven, oneRound_whole found⟩, ?_⟩
  have readable' := (wider_premise s "(p ∧ p)").readable readable conjunction_reads
  obtain ⟨r', found'⟩ : ∃ r', s'.search "(p ∧ p)" oneRound = .ok r' :=
    search_total rfl readable' conjunction_reads
  refine ⟨r', found', Bool.eq_false_iff.mpr fun proven => ?_, oneRound_whole found'⟩
  obtain ⟨t, proof⟩ := Option.isSome_iff_exists.mp proven
  obtain ⟨chain, proves, shallow, -⟩ := search_proven found' proof
  have start : considered.proves? "(p ∧ p)" = .ok false := by cbv
  have one : max oneRound.maxDepth 0 = 1 := rfl
  generalize r'.depth = depth at chain shallow
  cases chain with
  | start => cases start.symm.trans proves
  | @next n u t chain member =>
    cases chain with
    | start => exact considered_round member proves
    | next _ _ => omega

end Premise.Derivation
