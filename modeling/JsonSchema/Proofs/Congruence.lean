import JsonSchema.Proofs.Finishing
import JsonSchema.Proofs.Loading

/-!
# Loading over related functions

A relation of loading computations is compatible (`Load.Compatible`) if it holds between equal
operations on the session (`Load.IsStep`), and if sequence, recording an issue and turning a fault
into an issue lead from related computations to related ones. It is a congruence (`Load.Congruence`)
if it also holds where the target of a reference is located. What an object says is then related,
whenever what the objects below it load is (`Congruence.loadContent`); and so is what it loads, if
the operations that make an object are (`Load.IsMaking`, `Congruence.nodeWith`). Locating is the only
part that may fetch: a compatible relation that holds between equal fetches is a congruence
(`Compatible.congruence`).

The two sides may differ in strictness and in the function that loads the objects below. These are
objects whose keys are among given ones (`Load.IsPlaced`), if those of the documents are. A relation
also says something about the values of the computations, in the manner of `After`.
-/

namespace JsonSchema

/-- The loader with or without strict mode. -/
def Loader.withStrict (loader : Loader) (strict : Bool) : Loader :=
  { loader with options := { loader.options with strict } }

namespace Load

variable {α β : Type} {keys : Set String}

/-! ## Placed values -/

/-- An object has its keys among given ones. Other values are not met again, so they need none. -/
def IsPlaced (keys : Set String) (value : Json) (location : Location) : Prop :=
  ∀ members, value = .object members →
    value.IsKeyed keys location.documentUri location.pointer

theorem isPlaced_of_isKeyed {value : Json} {location : Location}
    (keyed : value.IsKeyed keys location.documentUri location.pointer) :
    IsPlaced keys value location :=
  fun _ _ => keyed

/-- The elements of a value that is no object are placed if it is keyed. -/
theorem isPlaced_element {value item : Json} {items : List Json} {location : Location}
    {position : Nat} (keyed : value.IsKeyed keys location.documentUri location.pointer)
    (other : ∀ members, value ≠ .object members) (elements : value.elements = .ok items)
    (mem : (item, position) ∈ items.zipIdx) :
    IsPlaced keys item (location.child [toString position]) := by
  have plain : ∀ {texts : List Json}, (∀ text ∈ texts, ∀ members, text ≠ .object members) →
      (item, position) ∈ texts.zipIdx → IsPlaced keys item (location.child [toString position]) :=
    fun none mem members same => absurd same (none item (List.fst_mem_of_mem_zipIdx mem) members)
  cases value with
  | array listed =>
    cases elements
    exact isPlaced_of_isKeyed (keyed.item mem)
  | object members => exact absurd rfl (other members)
  | string text =>
    cases elements
    refine plain (fun character inside members => ?_) mem
    obtain ⟨_, _, rfl⟩ := List.mem_map.1 inside
    exact nofun
  | bytes text =>
    cases elements
    refine plain (fun number inside members => ?_) mem
    obtain ⟨_, _, rfl⟩ := List.mem_map.1 inside
    exact nofun
  | _ => cases elements

/-- A value that is found in a keyed document is keyed. -/
theorem isKeyed_valueAt {uri : String} {stored : StoredDocument} {pointer : Pointer} {value : Json}
    {target : Location} (keyed : ∀ key, Uri.withoutFragment uri = .ok key →
      stored.document.value.IsKeyed keys key [])
    (ok : valueAt uri stored pointer = .ok (value, target)) :
    value.IsKeyed keys target.documentUri target.pointer := by
  unfold valueAt at ok
  obtain ⟨value, resolved, ok⟩ := except_bind_ok ok
  obtain ⟨target, located, ok⟩ := except_bind_ok ok
  cases ok
  have located := mapError_ok located
  obtain ⟨start, root, _⟩ := except_bind_ok located
  obtain ⟨key, place, _⟩ := except_bind_ok (mapError_ok root)
  obtain ⟨document, way⟩ := ofDocument_place place located
  rw [document, way]
  exact (keyed key place).resolve (mapError_ok resolved)

theorem find_key {registry : Registry} {key : String} {draft : Option Draft} {keyword : Keyword}
    (found : registry.find? key draft = some keyword) : keyword.key = key := by
  have found : registry.keywords.find? (fun keyword => keyword.key = key) = some keyword :=
    (Option.filter_eq_some_iff.1 found).1
  simpa using List.find?_some found

/-! ## Steps -/

/-- The operations on a session that record no issue and make no object, other than reading and
storing documents. -/
inductive IsStep : ∀ {α : Type}, Load α → Prop
  | get : IsStep (get : Load Session)
  | lookup (uri : String) : IsStep (lookup uri)
  | lookupLocation (location : Location) : IsStep (lookupLocation location)
  | findById (uri : String) : IsStep (findById uri)
  | enterUri (uri : String) (handle : HandleId) : IsStep (enterUri uri handle)
  | addBound (location : Location) (schema : Schema) : IsStep (addBound location schema)
  | referTo (handle : HandleId) (location : Location) (draft : Draft) :
      IsStep (referTo handle location draft)

/-- The operations that make the schema of an object. -/
inductive IsMaking : ∀ {α : Type}, Load α → Prop
  | start (location : Location) : IsMaking (start location)
  | addNode (location : Location) (draft : Draft) (keywords : List (Keyword × KeywordValue)) :
      IsMaking (addNode location draft keywords)
  | bind (handle : HandleId) (schema : Schema) : IsMaking (bind handle schema)

/-! ## Compatible relations -/

/-- A relation of computations of one loader in two modes that the constructs of loading keep, other
than fetching. It says of a value what `Q` says. -/
structure Compatible (keys : Set String) (loader : Loader) (strict strict' : Bool)
    (R : ∀ {α : Type}, Load α → Load α → (α → Prop) → Prop) : Prop where
  pure : ∀ {α : Type} {a : α} {Q : α → Prop}, Q a → R (pure a) (pure a) Q
  bind : ∀ {α β : Type} {act act' : Load α} {next next' : α → Load β} {Q : α → Prop}
    {Q' : β → Prop}, R act act' Q → (∀ a, Q a → R (next a) (next' a) Q') →
    R (act >>= next) (act' >>= next') Q'
  step : ∀ {α : Type} {act : Load α}, IsStep act → R act act fun _ => True
  throw : ∀ {α : Type} {fault : Fault} {Q : α → Prop}, fault ≠ .exhausted →
    R (throw (.fault fault)) (throw (.fault fault)) Q
  check : ∀ {α : Type} {x : Except Fault α}, Finishes x → R (check x) (check x) fun a => x = .ok a
  document : ∀ uri, R (document? uri) (document? uri) fun found =>
    ∀ stored key, found = some stored → Uri.withoutFragment uri = .ok key →
      stored.document.value.IsKeyed keys key []
  error : ∀ code location problem, R (recordError (loader.withStrict strict) code location problem)
    (recordError (loader.withStrict strict') code location problem) fun _ => True
  siblings : ∀ location problem,
    R (recordWarning (loader.withStrict strict) .refSiblingsIgnored location problem)
      (recordWarning (loader.withStrict strict') .refSiblingsIgnored location problem) fun _ => True
  unknown : ∀ key location, R (recordUnknown (loader.withStrict strict) key location)
    (recordUnknown (loader.withStrict strict') key location) fun _ => True
  fail : ∀ {α : Type} code location problem {Q : α → Prop},
    R (failAt code location problem) (failAt code location problem) Q
  recording : ∀ {α : Type} location {act act' : Load α}, R act act' (fun _ => True) →
    R (recordingFaults (loader.withStrict strict) location act)
      (recordingFaults (loader.withStrict strict') location act') fun _ => True

/-- A compatible relation that also holds where the target of a reference is located. -/
structure Congruence (keys : Set String) (loader : Loader) (strict strict' : Bool)
    (R : ∀ {α : Type}, Load α → Load α → (α → Prop) → Prop) : Prop
    extends Compatible keys loader strict strict' R where
  locate : ∀ uri origin,
    R (locate loader uri origin) (locate loader uri origin) fun _ => True

namespace Compatible

variable {loader : Loader} {strict strict' : Bool}
  {R : ∀ {α : Type}, Load α → Load α → (α → Prop) → Prop}
  (compatible : Compatible keys loader strict strict' R)

include compatible

theorem done (a : α) : R (Pure.pure a) (Pure.pure a) fun _ => True :=
  compatible.pure trivial

/-- A step comes first. -/
theorem step_bind {act : Load α} {next next' : α → Load β} {Q : β → Prop} (isStep : IsStep act)
    (rest : ∀ a, R (next a) (next' a) Q) : R (act >>= next) (act >>= next') Q :=
  compatible.bind (compatible.step isStep) (fun a _ => rest a)

/-- A check comes first. -/
theorem check_bind {x : Except Fault α} {next next' : α → Load β} {Q : β → Prop}
    (finishes : Finishes x) (rest : ∀ a, x = .ok a → R (next a) (next' a) Q) :
    R (Load.check x >>= next) (Load.check x >>= next') Q :=
  compatible.bind (compatible.check finishes) rest

/-- A check comes last. -/
theorem checked {x : Except Fault α} (finishes : Finishes x) :
    R (Load.check x) (Load.check x) fun _ => True := by
  rw [← bind_pure (Load.check x)]
  exact compatible.check_bind finishes (fun a _ => compatible.done a)

theorem checkUri_bind (x : Except Uri.UriFault α) {next next' : α → Load β} {Q : β → Prop}
    (rest : ∀ a, R (next a) (next' a) Q) : R (checkUri x >>= next) (checkUri x >>= next') Q :=
  compatible.check_bind (finishes_badUri x) (fun a _ => rest a)

theorem mapM {f f' : α → Load β} (xs : List α)
    (each : ∀ a ∈ xs, R (f a) (f' a) fun _ => True) :
    R (xs.mapM f) (xs.mapM f') fun _ => True := by
  induction xs with
  | nil => exact compatible.done []
  | cons x xs ih =>
    rw [List.mapM_cons, List.mapM_cons]
    refine compatible.bind (each x List.mem_cons_self) (fun y _ => ?_)
    refine compatible.bind (ih fun a mem => each a (List.mem_cons_of_mem _ mem)) (fun ys _ => ?_)
    exact compatible.done _

theorem foldlM {Q : β → Prop} {f f' : β → α → Load β} (xs : List α) (init : β) (start : Q init)
    (each : ∀ a ∈ xs, ∀ b, Q b → R (f b a) (f' b a) Q) :
    R (xs.foldlM f init) (xs.foldlM f' init) Q := by
  induction xs generalizing init with
  | nil => exact compatible.pure start
  | cons x xs ih =>
    rw [List.foldlM_cons, List.foldlM_cons]
    refine compatible.bind (each x List.mem_cons_self init start) (fun b holds => ?_)
    exact ih b holds (fun a mem => each a (List.mem_cons_of_mem _ mem))

/-- A computation that is run on one condition only. -/
theorem guarded {condition : Prop} [Decidable condition] {act act' : Load PUnit}
    {next next' : PUnit → Load α} {Q : α → Prop} (first : R act act' fun _ => True)
    (rest : ∀ a, R (next a) (next' a) Q) :
    R (if condition then act >>= next else next ⟨⟩)
      (if condition then act' >>= next' else next' ⟨⟩) Q := by
  split
  · exact compatible.bind first (fun a _ => rest a)
  · exact rest ⟨⟩

/-! ## References -/

theorem pointerOf (uri fragment : String) (origin : Location) :
    R (pointerOf uri fragment origin) (pointerOf uri fragment origin) fun _ => True := by
  unfold Load.pointerOf
  split
  · exact compatible.done _
  · exact compatible.fail _ _ _

section Fetching

variable
  (served : ∀ {uri document}, loader.client.fetch uri = .ok document →
    R (addDocument uri document (draftOf loader document.value))
      (addDocument uri document (draftOf loader document.value)) fun _ => True)
  (fetching : ∀ uri : String,
    R (modify fun session => { session with fetched := session.fetched ++ [uri] } : Load PUnit)
      (modify fun session => { session with fetched := session.fetched ++ [uri] } : Load PUnit)
      fun _ => True)

include served fetching

theorem fetch (uri : String) (origin : Location) :
    R (Load.fetch loader uri origin) (Load.fetch loader uri origin) fun _ => True := by
  unfold Load.fetch
  dsimp only
  refine compatible.guarded (compatible.fail _ _ _) (fun _ => ?_)
  refine compatible.bind (fetching uri) (fun _ _ => ?_)
  split
  · next answer => exact served answer
  · exact compatible.fail _ _ _

theorem locate (uri : String) (origin : Location) :
    R (Load.locate loader uri origin) (Load.locate loader uri origin) fun _ => True := by
  unfold Load.locate
  refine compatible.checkUri_bind _ (fun parts => ?_)
  refine compatible.bind (compatible.document _) (fun known _ => ?_)
  dsimp only
  split
  · exact compatible.bind (compatible.pointerOf _ _ _) (fun _ _ => compatible.done _)
  · refine compatible.step_bind (.findById _) (fun found => ?_)
    split
    · exact compatible.done _
    · refine compatible.guarded (compatible.fail _ _ _) (fun _ => ?_)
      refine compatible.bind (compatible.fetch served fetching _ _) (fun _ _ => ?_)
      refine compatible.step_bind (.findById _) (fun found => ?_)
      split
      · exact compatible.done _
      · split
        · exact compatible.bind (compatible.pointerOf _ _ _) (fun _ _ => compatible.done _)
        · exact compatible.fail _ _ _

/-- Related fetches are located alike. -/
theorem congruence : Congruence keys loader strict strict' R :=
  { compatible with locate := compatible.locate served fetching }

end Fetching

end Compatible

namespace Congruence

variable {loader : Loader} {strict strict' : Bool}
  {R : ∀ {α : Type}, Load α → Load α → (α → Prop) → Prop}
  (congruence : Congruence keys loader strict strict' R)

include congruence

/-! ## Keywords without schemas -/

theorem addKeyword (keyword : Keyword) (location : Location) {act act' : Load KeywordValue}
    (loaded : R act act' fun _ => True) (builder : SchemaBuilder) :
    R (Load.addKeyword (loader.withStrict strict) keyword location act builder)
      (Load.addKeyword (loader.withStrict strict') keyword location act' builder)
      fun _ => True := by
  unfold Load.addKeyword
  refine congruence.bind (congruence.recording _ ?_) (fun _ _ => congruence.done _)
  exact congruence.bind loaded (fun value _ => congruence.checked (builder.finishes_put _ _))

theorem loadLimit (location : Location) (draft : Draft) (accepted : List (String × Json))
    (bound exclusive : Keyword) (builder : SchemaBuilder) :
    R (Load.loadLimit (loader.withStrict strict) location draft accepted bound exclusive builder)
      (Load.loadLimit (loader.withStrict strict') location draft accepted bound exclusive builder)
      fun _ => True := by
  unfold Load.loadLimit
  dsimp only
  refine congruence.bind (congruence.recording _ ?_) (fun _ _ => congruence.done _)
  refine congruence.check_bind (Digest.finishes_limit _ _ _ _ _) (fun limit _ => ?_)
  split
  · exact congruence.checked (builder.finishes_put _ _)
  · exact congruence.done _

/-- An identifier does not move an object. -/
theorem applyIdentifier (identifier : Json) (location : Location) :
    R (Load.applyIdentifier (loader.withStrict strict) identifier location)
      (Load.applyIdentifier (loader.withStrict strict') identifier location)
      fun named => named.documentUri = location.documentUri ∧
        named.pointer = location.pointer := by
  unfold Load.applyIdentifier
  split
  · split
    · next named ok => exact congruence.pure (withId_place ok)
    · exact congruence.bind (congruence.error _ _ _) (fun _ _ => congruence.pure ⟨rfl, rfl⟩)
  · exact congruence.pure ⟨rfl, rfl⟩

/-! ## Keywords with schemas -/

section Below

variable {load load' : NodeLoader}
  (loads : ∀ value location draft, IsPlaced keys value location →
    R (load value location draft) (load' value location draft) fun _ => True)

include loads

theorem resolve (uri : String) (origin : Location) :
    R (Load.resolve (loader.withStrict strict) load uri origin)
      (Load.resolve (loader.withStrict strict') load' uri origin) fun _ => True := by
  have entered : ∀ handle : HandleId, R (do enterUri uri handle; return handle)
      (do enterUri uri handle; return handle) fun _ => True :=
    fun handle => congruence.step_bind (.enterUri _ _) (fun _ => congruence.done _)
  unfold Load.resolve
  refine congruence.step_bind (.lookup _) (fun found => ?_)
  split
  · exact congruence.done _
  · refine congruence.bind (congruence.locate uri origin) (fun place _ => ?_)
    refine congruence.bind (congruence.document _) (fun stored keyed => ?_)
    split
    · exact congruence.throw nofun
    · next stored =>
      split
      · exact congruence.fail _ _ _
      · next value target ok =>
        have placed := isPlaced_of_isKeyed (isKeyed_valueAt (fun key => keyed stored key rfl) ok)
        refine congruence.step_bind (.lookupLocation _) (fun known => ?_)
        dsimp only
        split
        · exact congruence.bind (congruence.done _) (fun handle _ => entered handle)
        · refine congruence.bind (loads _ _ _ placed) (fun schema _ => ?_)
          refine congruence.step_bind (.lookupLocation _) (fun known => ?_)
          split
          · exact congruence.bind (congruence.done _) (fun handle _ => entered handle)
          · exact congruence.step_bind (.addBound _ _) entered

theorem loadReference (members : List (String × Json)) (ref : Json) (location : Location)
    (builder : SchemaBuilder) :
    R (Load.loadReference (loader.withStrict strict) load members ref location builder)
      (Load.loadReference (loader.withStrict strict') load' members ref location builder)
      fun _ => True := by
  unfold Load.loadReference
  dsimp only
  split
  · refine congruence.guarded (congruence.siblings _ _) (fun _ => ?_)
    split
    · exact congruence.bind (congruence.error _ _ _) (fun _ _ => congruence.done _)
    · refine congruence.bind (congruence.resolve loads _ _) (fun handle _ => ?_)
      exact congruence.checked (builder.finishes_put _ _)
  · exact congruence.bind (congruence.error _ _ _) (fun _ _ => congruence.done _)

theorem loadItem {items : List Json} {location : Location}
    (keyed : (Json.array items).IsKeyed keys location.documentUri location.pointer)
    (draft : Draft) :
    R (items.zipIdx.mapM fun (item, position) =>
        load item (location.child [toString position]) draft)
      (items.zipIdx.mapM fun (item, position) =>
        load' item (location.child [toString position]) draft) fun _ => True :=
  congruence.mapM _ (fun _ mem => loads _ _ _ (isPlaced_of_isKeyed (keyed.item mem)))

theorem loadList (key : String) {value : Json} {location : Location}
    (keyed : value.IsKeyed keys location.documentUri location.pointer) (draft : Draft) :
    R (Load.loadList load key value location draft)
      (Load.loadList load' key value location draft) fun _ => True := by
  unfold Load.loadList
  split
  · exact congruence.bind (loads _ _ _ (isPlaced_of_isKeyed keyed)) (fun _ _ => congruence.done _)
  · next other =>
    refine congruence.check_bind (Digest.finishes_checkSchemaList _ _) (fun _ _ => ?_)
    refine congruence.check_bind (finishes_elements _) (fun items elements => ?_)
    refine congruence.mapM _ (fun numbered mem => loads _ _ _ ?_)
    exact isPlaced_element keyed other elements mem

theorem loadMap {members : List (String × Json)} {location : Location}
    (keyed : (Json.object members).IsKeyed keys location.documentUri location.pointer)
    (draft : Draft) :
    R (Load.loadMap load members location draft) (Load.loadMap load' members location draft)
      fun _ => True := by
  refine congruence.mapM _ (fun member mem => ?_)
  exact congruence.bind (loads _ _ _ (isPlaced_of_isKeyed (keyed.member mem)))
    (fun _ _ => congruence.done _)

theorem loadDependencies (key : String) {members : List (String × Json)} {location : Location}
    (keyed : (Json.object members).IsKeyed keys location.documentUri location.pointer)
    (draft : Draft) : R (Load.loadDependencies load key members location draft)
      (Load.loadDependencies load' key members location draft) fun _ => True := by
  unfold Load.loadDependencies
  dsimp only
  refine congruence.bind (congruence.foldlM (Q := fun _ => True) _ _ trivial
    (fun member mem found _ => ?_))
    (fun found _ => congruence.checked (finishes_makeDependencies _ _))
  have placed : IsPlaced keys member.2 (location.child [member.1]) :=
    isPlaced_of_isKeyed (keyed.member mem)
  split
  · exact congruence.bind (loads _ _ _ placed) (fun _ _ => congruence.done _)
  · exact congruence.bind (loads _ _ _ placed) (fun _ _ => congruence.done _)
  · exact congruence.check_bind (Digest.finishes_dependency _ _ _ _)
      (fun _ _ => congruence.done _)

theorem loadValue (keyword : Keyword) (kind : KeywordKind) {value : Json} {location : Location}
    (keyed : value.IsKeyed keys location.documentUri (location.pointer ++ [keyword.key]))
    (draft : Draft) : R (Load.loadValue load keyword kind value location draft)
      (Load.loadValue load' keyword kind value location draft) fun _ => True := by
  have below : value.IsKeyed keys (location.child [keyword.key]).documentUri
      (location.child [keyword.key]).pointer := keyed
  unfold Load.loadValue
  dsimp only
  split
  · exact congruence.bind (loads _ _ _ (isPlaced_of_isKeyed below)) (fun _ _ => congruence.done _)
  · exact congruence.bind (congruence.loadList loads _ below _) (fun _ _ => congruence.done _)
  · split
    · exact congruence.bind (congruence.loadMap loads below _) (fun _ _ => congruence.done _)
    · exact congruence.throw nofun
  · exact congruence.checked (Digest.finishes_types _ _ _)
  · split
    · exact congruence.checked (Digest.finishes_required _ _ _)
    · split
      · exact congruence.check_bind (Digest.finishes_names _ _ _) (fun _ _ => congruence.done _)
      · split
        · exact congruence.loadDependencies loads _ below _
        · exact congruence.throw nofun
      · exact congruence.checked (Digest.finishes_leaf _ _ _)

/-- Members are only gathered, not made up. -/
theorem loadMember {location : Location} {key : String} {value : Json}
    (keyed : value.IsKeyed keys location.documentUri (location.pointer ++ [key])) (draft : Draft)
    {members accepted : List (String × Json)} (mem : (key, value) ∈ members)
    (gathered : ∀ member ∈ accepted, member ∈ members) (builder : SchemaBuilder) :
    R (Load.loadMember (loader.withStrict strict) load location draft key value accepted builder)
      (Load.loadMember (loader.withStrict strict') load' location draft key value accepted builder)
      fun found => ∀ member ∈ found.1, member ∈ members := by
  have longer : ∀ member ∈ accepted ++ [(key, value)], member ∈ members := by
    intro member inside
    rcases List.mem_append.1 inside with old | new
    · exact gathered member old
    · exact List.mem_singleton.1 new ▸ mem
  unfold Load.loadMember
  dsimp only [Loader.withStrict]
  split
  · exact congruence.bind (congruence.unknown _ _) (fun _ _ => congruence.pure gathered)
  · next keyword found =>
    cases find_key found
    split
    · exact congruence.throw nofun
    · split
      · exact congruence.bind (congruence.error _ _ _) (fun _ _ => congruence.pure gathered)
      · split
        · exact congruence.pure longer
        · have loaded :=
            congruence.loadValue loads keyword (keyword.variantFor draft).kind keyed draft
          exact congruence.bind (congruence.addKeyword _ _ loaded _)
            (fun _ _ => congruence.pure longer)

theorem loadItems {location : Location} {members accepted : List (String × Json)}
    (keyed : (Json.object members).IsKeyed keys location.documentUri location.pointer)
    (gathered : ∀ member ∈ accepted, member ∈ members) (draft : Draft) (builder : SchemaBuilder) :
    R (Load.loadItems (loader.withStrict strict) load location draft accepted builder)
      (Load.loadItems (loader.withStrict strict') load' location draft accepted builder)
      fun _ => True := by
  have member : ∀ {key : String} {value : Json},
      Digest.present (accepted.lookup key) = some value →
      value.IsKeyed keys (location.child [key]).documentUri (location.child [key]).pointer :=
    fun found => keyed.member (gathered _ (Members.mem_of_lookup (present_some found)))
  unfold Load.loadItems
  dsimp only
  refine congruence.bind (congruence.recording _ ?_) (fun withItems _ => ?_)
  · split
    · next items found =>
      refine congruence.bind (congruence.loadItem loads (member found) _) (fun schemas _ => ?_)
      exact congruence.checked (builder.finishes_items _ _)
    · next value _ found =>
      refine congruence.bind (loads _ _ _ (isPlaced_of_isKeyed (member found))) (fun schema _ => ?_)
      exact congruence.checked (builder.finishes_items _ _)
    · exact congruence.done _
  · split
    · exact congruence.done _
    · next builder =>
      refine congruence.bind (congruence.recording _ ?_) (fun _ _ => congruence.done _)
      split
      · next value found =>
        refine congruence.bind (loads _ _ _ (isPlaced_of_isKeyed (member found)))
          (fun schema _ => ?_)
        exact congruence.checked (builder.finishes_additionalItems _)
      · exact congruence.done _

theorem loadKeywords {location : Location} {members : List (String × Json)}
    (keyed : (Json.object members).IsKeyed keys location.documentUri location.pointer)
    (draft : Draft) (builder : SchemaBuilder) :
    R (Load.loadKeywords (loader.withStrict strict) load members location draft builder)
      (Load.loadKeywords (loader.withStrict strict') load' members location draft builder)
      fun _ => True := by
  unfold Load.loadKeywords
  dsimp only
  refine congruence.bind (congruence.foldlM (Q := fun found => ∀ member ∈ found.1, member ∈ members)
    _ _ nofun (fun member mem found gathered => ?_)) (fun found gathered => ?_)
  · exact congruence.loadMember loads (keyed.member mem) _ mem gathered _
  · refine congruence.bind (congruence.loadLimit _ _ _ _ _ _) (fun builder _ => ?_)
    refine congruence.bind (congruence.loadLimit _ _ _ _ _ _) (fun builder _ => ?_)
    split
    · exact congruence.loadItems loads keyed gathered _ _
    · exact congruence.done _

/-! ## Nodes -/

theorem loadContent {location : Location} {members : List (String × Json)}
    (keyed : (Json.object members).IsKeyed keys location.documentUri location.pointer)
    (draft : Draft) :
    R (Load.loadContent (loader.withStrict strict) load members draft location)
      (Load.loadContent (loader.withStrict strict') load' members draft location)
      fun _ => True := by
  unfold Load.loadContent
  dsimp only
  split
  · exact congruence.loadReference loads _ _ _ _
  · exact congruence.loadKeywords loads keyed _ _

section Making

variable (making : ∀ {α : Type} {act : Load α}, IsMaking act → R act act fun _ => True)

include making

theorem loadStarted {location : Location} {members : List (String × Json)}
    (keyed : (Json.object members).IsKeyed keys location.documentUri location.pointer)
    (draft : Draft) (handle : HandleId) :
    R (Load.loadStarted (loader.withStrict strict) load members draft location handle)
      (Load.loadStarted (loader.withStrict strict') load' members draft location handle)
      fun _ => True := by
  rw [loadStarted_eq, loadStarted_eq]
  refine congruence.bind (congruence.loadContent loads keyed draft) (fun builder _ => ?_)
  refine congruence.bind (making (.addNode _ _ _)) (fun schema _ => ?_)
  exact congruence.bind (making (.bind _ _)) (fun _ _ => congruence.done _)

theorem loadObject {location : Location} {members : List (String × Json)}
    (keyed : (Json.object members).IsKeyed keys location.documentUri location.pointer)
    (draft : Draft) :
    R (Load.loadObject (loader.withStrict strict) load members location draft)
      (Load.loadObject (loader.withStrict strict') load' members location draft)
      fun _ => True := by
  have started : ∀ named : Location, named.documentUri = location.documentUri ∧
      named.pointer = location.pointer →
      R (start named >>= Load.loadStarted (loader.withStrict strict) load members draft named)
        (start named >>= Load.loadStarted (loader.withStrict strict') load' members draft named)
        fun _ => True := by
    rintro named ⟨document, pointer⟩
    refine congruence.bind (making (.start _)) (fun handle _ => ?_)
    refine congruence.loadStarted loads making ?_ draft handle
    rw [document, pointer]
    exact keyed
  rw [loadObject_eq, loadObject_eq]
  refine congruence.bind ?_ started
  split
  · exact congruence.applyIdentifier _ _
  · exact congruence.pure ⟨rfl, rfl⟩

theorem nodeWith {value : Json} {location : Location} (placed : IsPlaced keys value location)
    (draft : Draft) : R (Load.nodeWith (loader.withStrict strict) load value location draft)
      (Load.nodeWith (loader.withStrict strict') load' value location draft) fun _ => True := by
  unfold Load.nodeWith
  split
  · exact congruence.done _
  · next members =>
    refine congruence.step_bind (.lookupLocation _) (fun known => ?_)
    split
    · exact congruence.loadObject loads making (placed members rfl) _
    · refine congruence.step_bind .get (fun session => ?_)
      split
      · exact congruence.done _
      · exact congruence.step (.referTo _ _ _)
  · exact congruence.bind (congruence.error _ _ _) (fun _ _ => congruence.done _)

end Making

end Below

end Congruence

end Load

end JsonSchema
