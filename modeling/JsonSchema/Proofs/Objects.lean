import JsonSchema.Proofs.Making

/-!
# Loading objects and documents

A value that loading comes to is loaded, or an error is recorded: an object is started, its keywords
are built and its handle is bound; one that was met before is the schema of its handle or refers
back to it. `runs_loadNode` closes this by induction on the depth.
-/

namespace JsonSchema.Load

variable {contents : String → Json} {w : Track contents} {loader : Loader} {load : NodeLoader}
  {location : Location} {draft : Draft} {members : List (String × Json)}

/-! ## Objects -/

theorem runs_loadObject (registry : loader.registry = .default)
    (delivers : Delivers contents loader) (loads : LoadsTracked contents load)
    (due : IsDue w location (.object members) draft) {keys : List String}
    (listed : location.cacheKeys = .ok keys) :
    Runs (loadObject loader load members location draft) w (fun schema w' =>
      Gives w' location (.object members) draft schema) := by
  have distinct : (Members.keys members).Nodup := by
    obtain ⟨_, _, stored, known, _, resolved⟩ := due.comes.found w.sound
    exact (Pointer.isProper_resolve resolved (w.sound.values _ _ known)).1
  have addressed : ∃ uri, location.absoluteUri = .ok uri := by
    obtain ⟨uri, same, _⟩ := Location.absoluteUri_mem listed
    exact ⟨uri, same⟩
  have started : ∀ {w₁ : Track contents}, w ≤ w₁ →
      (members.lookup Builtin.ref.key = none → w₁.stock.IsClean →
        location.Names draft.idKey members) →
      Runs (start (location.ofObject draft members) >>=
          loadStarted loader load members draft (location.ofObject draft members)) w₁
        (fun schema w' => Gives w' location (.object members) draft schema) := by
    intro w₁ up₁ names
    refine after_bind (runs_start (due.later up₁).comes) ?_
    rintro id w₂ up₂ ⟨has, enters⟩
    have due₂ := due.later (le_trans up₁ up₂)
    have closed : ∀ {act : Load SchemaBuilder},
        Runs act w₂ (fun builder w' => w'.stock.IsClean → ∀ node,
          Built w'.stock location members draft
            (.node node (some (location.ofObject draft members)) draft builder.keywords)) →
        Runs (do
          let builder ← act
          let schema ← addNode (location.ofObject draft members) draft builder.keywords
          bind id schema
          return schema) w₂ (fun schema w' => Gives w' location (.object members) draft schema) :=
      fun builds => after_bind builds (fun builder w₃ up₃ built =>
        after_mono (runs_finish (due₂.later up₃) (has.mono (Track.grown up₃)) addressed built)
          (fun _ _ up₄ finished => ⟨finished.1, finished.2, fun _ _ =>
            (enters keys listed).mono (Track.grown (le_trans up₃ up₄)).session⟩))
    unfold loadStarted
    dsimp only
    split
    · next ref found =>
      have same : location.ofObject draft members = location := by
        rw [Location.ofObject, found]
      refine closed (after_mono ?_ (Q := fun builder w' => w'.stock.IsClean →
        Refers w'.stock location ref builder.keywords) ?_)
      · rw [same]
        exact runs_loadReference loads delivers due₂ found
      · intro builder w' _ refers clean node
        refine ⟨node, builder.keywords, rfl, ?_⟩
        rw [found]
        exact refers clean
    · next plain =>
      have same : location.ofObject draft members = location.named draft.idKey members := by
        rw [Location.ofObject, plain]
      have here := due₂.comes.isAt w₂.sound
      rw [← Session.ofObject_place draft location members] at here
      refine closed (after_mono (runs_loadKeywords loads registry distinct here
        (fun part mem => ?_)) ?_)
      · rw [same]
        exact ⟨.part due₂.comes plain mem, fun clean =>
          .part (due₂.arrives clean) plain (names plain (clean.anti (Track.grown up₂))) mem⟩
      · intro builder w' up' reads clean node
        refine ⟨node, builder.keywords, rfl, ?_⟩
        rw [plain]
        rw [same] at reads
        exact ⟨names plain (clean.anti (Track.grown (le_trans up₂ up'))), reads clean⟩
  have same : ∀ {here : Location}, members.lookup Builtin.ref.key = none →
      here = location.named draft.idKey members → here = location.ofObject draft members := by
    intro here none same
    rw [same, Location.ofObject, none]
  unfold loadObject
  dsimp only
  split
  · next identifier none found =>
    refine after_bind (works_applyIdentifier (.value (due.comes.isAt w.sound)) found) ?_
    rintro here w₁ up₁ ⟨named, names⟩
    rw [same none named]
    exact started up₁ (fun _ => names)
  · next other =>
    have unnamed : members.lookup Builtin.ref.key = none → members.lookup draft.idKey = none :=
      fun none => Option.eq_none_iff_forall_ne_some.2 (fun identifier => other identifier none)
    have here : location.ofObject draft members = location := by
      unfold Location.ofObject
      split
      · next none => rw [Location.named, unnamed none]
      · rfl
    have rest := started le_rfl (fun none _ identifier declared => by
      rw [unnamed none] at declared
      cases declared)
    rw [here] at rest
    exact rest

/-! ## Values -/

/-- What a handle at the place of an object is bound to has its location there. -/
theorem IsBoundAt.hasPlace {stock : Stock} {here : Location} {schema : Schema}
    (sound : AreSound stock.documents) (bound : IsBoundAt stock here schema)
    (comes : Comes stock.documents location (.object members) draft)
    (same : here.place = location.place) : HasPlace schema location.place := by
  rcases bound with ⟨received, inner, draft', _, rfl, node, keywords, rfl, _⟩ |
    ⟨value, draft', arrives, other, _⟩
  · exact ⟨_, rfl, same⟩
  · obtain ⟨_, _, stored, known, _, resolved⟩ := comes.found sound
    obtain ⟨_, _, stored', known', _, resolved'⟩ := arrives.comes.found sound
    obtain ⟨document, pointer⟩ := Prod.mk.inj same
    rw [document, known] at known'
    cases known'
    rw [pointer, resolved] at resolved'
    cases resolved'
    exact absurd rfl (other members)

theorem runs_nodeWith (registry : loader.registry = .default)
    (delivers : Delivers contents loader) (loads : LoadsTracked contents load) :
    LoadsTracked contents (nodeWith loader load) := by
  intro w value location draft due
  unfold nodeWith
  cases value with
  | bool b =>
    refine after_pure ⟨?_, fun _ => ⟨?_, rfl⟩, fun _ same => by cases same⟩ <;>
    · cases b
      · exact .inr (.inl rfl)
      · exact .inl rfl
  | object members =>
    refine after_bind (runs_lookupLocation location) ?_
    rintro found w₁ _ ⟨rfl, looked⟩
    cases found with
    | none =>
      obtain ⟨keys, listed, _⟩ := except_bind_ok looked
      exact runs_loadObject registry delivers loads due listed
    | some id =>
      have stands : Unambiguous w₁.documents → w₁.session.StandsAt id location.place :=
        fun unambiguous => w₁.reachable.isTraced.lookupLocation unambiguous
          (due.comes.isKnown w₁.sound) looked
      refine after_get_bind ?_
      split
      · next schema bound =>
        have made := w₁.made id schema bound
        refine after_pure ⟨made, fun clean => ⟨made, fun unambiguous =>
          ⟨?_, id, stands unambiguous, .inl bound⟩⟩, fun _ _ => ⟨id, looked⟩⟩
        obtain ⟨handle, held, same⟩ := stands unambiguous
        refine (w₁.bound clean id handle schema held ?_).hasPlace w₁.sound due.comes same
        rw [← schema_of_handle held]
        exact bound
      · obtain ⟨keys, listed, _⟩ := except_bind_ok looked
        obtain ⟨uri, same, _⟩ := Location.absoluteUri_mem listed
        refine after_mono (runs_referTo id due ⟨uri, same⟩) ?_
        rintro schema w₂ up ⟨made, node, ref, uri, rfl⟩
        have grown := (Track.grown up).session
        refine ⟨made, fun _ => ⟨made, fun unambiguous =>
          ⟨⟨_, rfl, rfl⟩, id, ?_, .inr ⟨node, ref, uri, rfl⟩⟩⟩,
          fun _ _ => Session.Enters.mono grown ⟨id, looked⟩⟩
        exact (stands (unambiguous.anti grown.documents)).mono grown
  | _ =>
    have here : IsAddress w.documents location.place := .value (due.comes.isAt w.sound)
    refine after_bind (runs_recordError _ _ here) (fun _ w₁ _ unclean => after_pure ?_)
    exact ⟨.inl rfl, fun clean => absurd clean unclean, fun _ same => by cases same⟩

/-- Whatever loading comes to is loaded, however deep it goes. -/
theorem runs_loadNode (registry : loader.registry = .default)
    (delivers : Delivers contents loader) (depth : Nat) :
    LoadsTracked contents (loadNode loader depth) := by
  induction depth with
  | zero => exact fun w value location draft _ => runs_throw _
  | succ depth ih => exact runs_nodeWith registry delivers ih

end JsonSchema.Load
