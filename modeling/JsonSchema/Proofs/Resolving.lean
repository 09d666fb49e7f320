import JsonSchema.Loading.Loader
import JsonSchema.Proofs.Operations

/-!
# Resolving references

What a reference stands for is looked up, found among the documents, or fetched. A pointer leads to
a value that has its keys among those of its document (`Load.valueAt_ok`), so loading it takes no
more room than the document does. `Load.after_resolve` is the rule of the whole; it takes the rule
of loading values (`Load.LoadsWithin`) as a premise.
-/

namespace JsonSchema

/-- A document is known under a URI. -/
def World.Knows {keys : Set String} (w : World keys) (uri : String) : Prop :=
  ∃ key, Uri.withoutFragment uri = .ok key ∧ (w.session.cache.documents.lookup key).isSome

namespace Load

variable {keys : Set String} {loader : Loader} {load : NodeLoader} {depth : Nat} {w : World keys}

/-! ## Documents -/

/-- The documents that a loader may fetch have their keys among some. -/
def Serves (keys : Set String) (loader : Loader) : Prop :=
  ∀ uri document key, loader.client.fetch uri = .ok document →
    Uri.withoutFragment uri = .ok key →
    document.value.IsProper ∧ document.value.IsKeyed keys key []

/-- The rule of a function that loads values as schemas. -/
def LoadsWithin (keys : Set String) (depth : Nat) (load : NodeLoader) : Prop :=
  ∀ (w : World keys) (value : Json) (location : Location) (draft : Draft), w.HasRoom depth →
    value.IsProper → value.IsKeyed keys location.documentUri location.pointer →
    Ends (load value location draft) w (fun schema w' => schema.IsWithin w'.size)

theorem after_referTo {handle : HandleId} (inside : handle.index < w.size) (location : Location)
    (draft : Draft) :
    Ends (referTo handle location draft) w (fun schema w' => schema.IsWithin w'.size) := by
  refine after_get_bind ?_
  cases found : w.session.graph.handle? handle with
  | none =>
    have outside := Array.getElem?_eq_none_iff.1 found
    exact absurd inside (Nat.not_lt.2 outside)
  | some known =>
    refine after_checkUri_bind (fun ref _ => after_checkUri_bind (fun uri _ => ?_))
    refine after_addNode (fun entry mem => ?_)
    cases List.mem_singleton.1 mem
    refine ⟨fun target same => ?_, fun schema mem => absurd mem List.not_mem_nil⟩
    cases same
    exact inside

theorem after_fetch (serves : Serves keys loader) {uri key : String} (origin : Location)
    (place : Uri.withoutFragment uri = .ok key)
    (absent : w.session.cache.documents.lookup key = none) :
    Ends (fetch loader uri origin) w
      (fun _ w' => (w'.session.cache.documents.lookup key).isSome) := by
  unfold fetch
  dsimp only
  split
  · exact after_bind (Q := fun _ _ => False) (after_failAt _ _ _) (fun _ _ _ never => never.elim)
  · let w₁ : World keys := ⟨{ w.session with fetched := w.session.fetched ++ [uri] },
      w.sound.graph, w.sound.entries, w.sound.places, w.sound.values, w.sound.keyed⟩
    have up : w ≤ w₁ := World.le_of_same rfl (fun _ missing => missing) rfl
    refine after_modify_bind up rfl ?_
    split
    · next document served =>
      obtain ⟨proper, keyed⟩ := serves uri document key served place
      have added : Ends (addDocument uri document (draftOf loader document.value)) w₁
          (fun _ w' => (w'.session.cache.documents.lookup key).isSome ∧ _) :=
        after_addDocument place absent proper keyed
      exact after_mono added (fun _ _ _ known => known.1)
    · exact after_failAt _ _ _

theorem after_pointerOf (uri fragment : String) (origin : Location) :
    Ends (pointerOf uri fragment origin) w (fun _ w' => w' = w) := by
  unfold pointerOf
  split
  · exact after_pure rfl
  · exact after_failAt _ _ _

theorem findIn_error {uri base fragment : String} {index : List (String × Pointer)} {fault : Fault}
    (fails : Cache.findIn uri base fragment index = .error fault) : fault.Escapes := by
  unfold Cache.findIn at fails
  split at fails
  · cases fails
  · split at fails
    · split at fails
      · split at fails
        · cases fails
        · cases fails
          trivial
      · cases fails
    · cases fails

theorem findAmong_error {uri base fragment : String} {documents : List (String × StoredDocument)}
    {fault : Fault} (fails : Cache.findAmong uri base fragment documents = .error fault) :
    fault.Escapes := by
  induction documents with
  | nil => cases fails
  | cons first rest ih =>
    rw [Cache.findAmong] at fails
    rcases except_bind_error fails with bad | ⟨index, _, fails⟩
    · obtain ⟨_, _, rfl⟩ := mapError_error bad
      trivial
    · rcases except_bind_error fails with bad | ⟨found, _, fails⟩
      · exact findIn_error bad
      · cases found with
        | some pointer => cases fails
        | none => exact ih fails

/-- What is found is in one of the documents. -/
theorem findAmong_ok {uri base fragment : String} {documents : List (String × StoredDocument)}
    {place : String × Pointer}
    (ok : Cache.findAmong uri base fragment documents = .ok (some place)) :
    ∃ stored, (place.1, stored) ∈ documents := by
  induction documents with
  | nil => cases ok
  | cons first rest ih =>
    rw [Cache.findAmong] at ok
    obtain ⟨index, _, ok⟩ := except_bind_ok ok
    obtain ⟨found, _, ok⟩ := except_bind_ok ok
    cases found with
    | some pointer =>
      cases ok
      exact ⟨first.2, List.mem_cons_self⟩
    | none =>
      obtain ⟨stored, mem⟩ := ih ok
      exact ⟨stored, List.mem_cons_of_mem _ mem⟩

theorem after_findById (uri : String) : Ends (findById uri) w
    (fun found w' => w' = w ∧ ∀ place, found = some place → w.Knows place.1) := by
  refine after_get_bind (after_check (fun fault fails => World.stops_fault ?_) (fun found ok => ?_))
  · rcases except_bind_error fails with bad | ⟨key, _, fails⟩
    · obtain ⟨_, _, rfl⟩ := mapError_error bad
      trivial
    · rcases except_bind_error fails with bad | ⟨both, _, fails⟩
      · obtain ⟨_, _, rfl⟩ := mapError_error bad
        trivial
      · exact findAmong_error fails
  · obtain ⟨key, _, ok⟩ := except_bind_ok ok
    obtain ⟨both, _, ok⟩ := except_bind_ok ok
    refine ⟨rfl, ?_⟩
    rintro place rfl
    obtain ⟨stored, mem⟩ := findAmong_ok ok
    refine ⟨place.1, w.sound.places _ mem, ?_⟩
    rw [List.lookup_isSome_iff]
    exact ⟨_, mem, beq_self_eq_true _⟩

/-- The document that a URI stands for is known afterwards. -/
theorem after_locate (serves : Serves keys loader) (uri : String) (origin : Location) :
    Ends (locate loader uri origin) w (fun place w' => w'.Knows place.1) := by
  unfold locate
  refine after_checkUri_bind (fun both split => ?_)
  obtain ⟨base, fragment⟩ := both
  refine after_bind (after_document base) ?_
  rintro stored w₁ _ ⟨rfl, key, place, found⟩
  dsimp only
  have byPointer : ∀ {w' : World keys}, w'.Knows base →
      Ends (do return (base, ← pointerOf uri fragment origin)) w'
        (fun place w'' => w''.Knows place.1) := by
    intro w' knows
    refine after_bind (after_pointerOf uri fragment origin) ?_
    rintro pointer _ _ rfl
    exact after_pure knows
  have failed : ∀ {w' : World keys} {next : Unit → Load (String × Pointer)},
      Ends (failAt .refUnresolvable origin (.unresolvable uri none) >>= next) w'
        (fun place w'' => w''.Knows place.1) :=
    after_bind (Q := fun _ _ => False) (after_failAt _ _ _) (fun _ _ _ never => never.elim)
  split
  · next known =>
    refine byPointer ⟨key, place, ?_⟩
    rw [found]
    exact (Bool.and_eq_true_iff.1 known).1
  · refine after_bind (after_findById uri) ?_
    rintro answer w₂ _ ⟨rfl, knows⟩
    cases answer with
    | some place => exact after_pure (knows place rfl)
    | none =>
      dsimp only
      split
      · exact failed
      · next unknown =>
        have absent : w₂.session.cache.documents.lookup key = none := by
          rw [found]
          exact Option.not_isSome_iff_eq_none.1 unknown
        refine after_bind (after_fetch serves origin place absent) (fun _ w₃ _ stored => ?_)
        refine after_bind (after_findById uri) ?_
        rintro answer w₄ _ ⟨rfl, knows⟩
        cases answer with
        | some place => exact after_pure (knows place rfl)
        | none =>
          dsimp only
          split
          · exact byPointer ⟨key, place, stored⟩
          · exact after_failAt _ _ _

/-! ## Values -/

theorem withId_place {location named : Location} {identifier : String}
    (ok : location.withId identifier = .ok named) :
    named.documentUri = location.documentUri ∧ named.pointer = location.pointer := by
  unfold Location.withId at ok
  obtain ⟨resolved, _, ok⟩ := except_bind_ok ok
  obtain ⟨⟨base, fragment⟩, _, ok⟩ := except_bind_ok ok
  dsimp only at ok
  split at ok
  · cases ok
    exact ⟨rfl, rfl⟩
  · cases ok
    exact ⟨rfl, rfl⟩

theorem walk_place {idKey : String} {pointer : Pointer} {location target : Location} {value : Json}
    (ok : Location.walk idKey location value pointer = .ok target) :
    target.documentUri = location.documentUri ∧
      target.pointer = location.pointer ++ pointer := by
  induction pointer generalizing location value with
  | nil =>
    cases ok
    exact ⟨rfl, (List.append_nil _).symm⟩
  | cons segment rest ih =>
    have further : ∀ {here : Location}, here.documentUri = location.documentUri →
        here.pointer = location.pointer →
        (do
          let next ← (Walk.step value segment).mapError WalkFault.step
          Location.walk idKey (here.child [segment]) next rest) = .ok target →
        target.documentUri = location.documentUri ∧
          target.pointer = location.pointer ++ segment :: rest := by
      intro here document pointer ok
      obtain ⟨next, _, ok⟩ := except_bind_ok ok
      obtain ⟨document', pointer'⟩ := ih ok
      refine ⟨document'.trans document, pointer'.trans ?_⟩
      show (here.pointer ++ [segment]) ++ rest = _
      rw [pointer, List.append_assoc]
      rfl
    rw [Location.walk] at ok
    split at ok
    · obtain ⟨here, named, ok⟩ := except_bind_ok ok
      obtain ⟨document, pointer⟩ := withId_place (mapError_ok named)
      exact further document pointer ok
    · exact further rfl rfl ok

theorem ofDocument_place {uri key idKey : String} {document : Json} {pointer : Pointer}
    {target : Location} (place : Uri.withoutFragment uri = .ok key)
    (ok : Location.ofDocument uri document pointer idKey = .ok target) :
    target.documentUri = key ∧ target.pointer = pointer := by
  unfold Location.ofDocument at ok
  obtain ⟨start, root, ok⟩ := except_bind_ok ok
  unfold Location.root at root
  rw [place] at root
  cases mapError_ok root
  exact walk_place ok

/-- A value that is found in a document is proper and has its keys among those of the document. -/
theorem valueAt_ok {uri key : String} {stored : StoredDocument} {pointer : Pointer} {value : Json}
    {target : Location} (place : Uri.withoutFragment uri = .ok key)
    (found : w.session.cache.documents.lookup key = some stored)
    (ok : valueAt uri stored pointer = .ok (value, target)) :
    value.IsProper ∧ value.IsKeyed keys target.documentUri target.pointer := by
  unfold valueAt at ok
  obtain ⟨value, resolved, ok⟩ := except_bind_ok ok
  obtain ⟨target, located, ok⟩ := except_bind_ok ok
  cases ok
  have resolved := mapError_ok resolved
  obtain ⟨document, way⟩ := ofDocument_place place (mapError_ok located)
  have mem := Members.mem_of_lookup found
  refine ⟨Pointer.isProper_resolve resolved (w.sound.values _ mem), ?_⟩
  rw [document, way]
  exact (w.sound.keyed _ mem).resolve resolved

/-- The handle of a reference is one of the graph. -/
theorem after_resolve (serves : Serves keys loader) (loads : LoadsWithin keys depth load)
    (room : w.HasRoom depth) (uri : String) (origin : Location) :
    Ends (resolve loader load uri origin) w (fun id w' => id.index < w'.size) := by
  have entered : ∀ {w' : World keys} {id : HandleId}, id.index < w'.size →
      Ends (do enterUri uri id; return id) w' (fun id w'' => id.index < w''.size) := by
    intro w' id inside
    refine after_bind (after_enterUri inside) (fun _ w'' up _ => ?_)
    exact after_pure (Nat.lt_of_lt_of_le inside (World.size_le up))
  unfold resolve
  refine after_bind (after_lookup uri) (fun found w₁ up₁ inside => ?_)
  cases found with
  | some id => exact after_pure (inside id rfl)
  | none =>
    refine after_bind (after_locate serves uri origin) (fun place w₂ up₂ known => ?_)
    obtain ⟨documentUri, pointer⟩ := place
    obtain ⟨key, place, known⟩ := known
    refine after_bind (after_document documentUri) ?_
    rintro stored w₃ _ ⟨rfl, key', place', found⟩
    rw [place] at place'
    cases place'
    cases stored with
    | none =>
      rw [found] at known
      cases known
    | some stored =>
      dsimp only
      split
      · exact after_failAt _ _ _
      · next value target ok =>
        obtain ⟨proper, keyed⟩ := valueAt_ok place found ok
        refine after_bind (after_lookupLocation target) ?_
        rintro answer w₄ _ ⟨rfl, inside, _⟩
        cases answer with
        | some id => exact entered (inside id rfl)
        | none =>
          have later := (room.later up₁).later up₂
          refine after_bind (loads w₄ value target stored.draft later proper keyed)
            (fun schema w₅ _ within => ?_)
          refine after_bind (after_lookupLocation target) ?_
          rintro answer w₆ _ ⟨rfl, inside, _⟩
          cases answer with
          | some id => exact entered (inside id rfl)
          | none => exact after_bind (after_addBound within) (fun id w₇ _ inside => entered inside)

end Load

end JsonSchema
