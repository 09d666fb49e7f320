import JsonSchema.Proofs.Resolving

/-!
# Loading objects

One rule for each function that loads keywords and objects: from a world with enough room for the
objects that have no handle yet, it ends in a world above, or stops as it may. `Load.after_loadNode`
ties them together by induction on the depth. With the keywords of the drafts no fault escapes other
than those of `Fault.Escapes`, and the depth is never exhausted.
-/

namespace JsonSchema

/-! ## Builders -/

namespace SchemaBuilder

/-- A keyword may hold the value: it is of one of its kinds, and a pattern is a text. -/
structure Fits (keyword : Keyword) (value : KeywordValue) : Prop where
  kind : takesKind keyword value.kind = true
  text : keyword = Builtin.pattern → ∃ text, value.literal? = some (.string text)

variable {keyword : Keyword} {value : KeywordValue} {fault : Fault} {size : Nat}

theorem checkPattern_error {key pattern : String}
    (fails : checkPattern key pattern = .error fault) :
    fault.Escapes ∨ fault.isValueFault = true := by
  unfold checkPattern at fails
  split at fails
  · cases fails
  · cases fails
    exact .inl trivial
  · cases fails
    exact .inr rfl

theorem forM_error {α : Type} {f : α → Except Fault Unit} {xs : List α}
    (fails : xs.forM f = .error fault) : ∃ x, f x = .error fault := by
  induction xs with
  | nil => cases fails
  | cons x rest ih =>
    rcases except_bind_error fails with here | ⟨_, _, later⟩
    · exact ⟨x, here⟩
    · exact ih later

theorem check_error (fits : Fits keyword value) (fails : check keyword value = .error fault) :
    fault.Escapes ∨ fault.isValueFault = true := by
  unfold check at fails
  rw [fits.kind] at fails
  split at fails
  · next wrong => cases wrong
  split at fails
  · split at fails
    · cases fails
    · cases fails
      exact .inr rfl
  split at fails
  · split at fails
    · cases fails
    · cases fails
      exact .inr rfl
  split at fails
  · next same =>
    obtain ⟨text, literal⟩ := fits.text same
    rw [literal] at fails
    exact checkPattern_error fails
  split at fails
  · split at fails
    · obtain ⟨pattern, bad⟩ := forM_error fails
      exact checkPattern_error bad
    · cases fails
  · cases fails

theorem put_error {builder : SchemaBuilder} (fits : Fits keyword value)
    (fails : builder.put keyword value = .error fault) :
    fault.Escapes ∨ fault.isValueFault = true := by
  rcases except_bind_error fails with bad | ⟨_, _, fails⟩
  · exact check_error fits bad
  · cases fails

theorem put_within {builder builder' : SchemaBuilder}
    (within : AreWithin size builder.keywords) (inside : value.IsWithin size)
    (ok : builder.put keyword value = .ok builder') : AreWithin size builder'.keywords := by
  obtain ⟨_, _, ok⟩ := except_bind_ok ok
  cases ok
  intro entry mem
  rcases Members.mem_put mem with rfl | old
  · exact inside
  · exact within entry old

/-- A reference can be put under its keyword. -/
theorem check_reference (ref uri : String) (handle : HandleId) :
    check Builtin.ref (.reference ref uri handle) = .ok () := by
  unfold check
  rfl

/-- Puts in what is made of items, with the schema for additional items. -/
def putItems (builder : SchemaBuilder) (every : Option Schema) (each : Option (List Schema))
    (additional : Option Schema) : Except Fault SchemaBuilder :=
  match KeywordValue.makeItems every each additional with
  | .ok value => builder.put Builtin.items value
  | .error _ => throw (.keywordConflict Builtin.items.key .bothFormsGiven)

/-- Setting items puts in what is made of them, with the schema for additional items that is known
already. -/
theorem items_cases (builder : SchemaBuilder) (every : Option Schema)
    (each : Option (List Schema)) :
    (∃ reason, builder.items every each = .error (.keywordConflict Builtin.items.key reason)) ∨
    ∃ additional value, (additional = none ∨
        ∃ form, (Builtin.items, .items form additional) ∈ builder.keywords) ∧
      KeywordValue.makeItems every each additional = .ok value ∧
      builder.items every each = builder.put Builtin.items value := by
  have made : ∀ {additional : Option Schema} {result : Except Fault SchemaBuilder},
      (additional = none ∨ ∃ form, (Builtin.items, .items form additional) ∈ builder.keywords) →
      result = builder.putItems every each additional →
      (∃ reason, result = .error (.keywordConflict Builtin.items.key reason)) ∨
      ∃ additional value, (additional = none ∨
          ∃ form, (Builtin.items, .items form additional) ∈ builder.keywords) ∧
        KeywordValue.makeItems every each additional = .ok value ∧
        result = builder.put Builtin.items value := by
    rintro additional result known rfl
    unfold putItems
    split
    · next value ok => exact .inr ⟨additional, value, known, ok, rfl⟩
    · exact .inl ⟨_, rfl⟩
  unfold items
  cases found : builder.get? Builtin.items with
  | none => exact made (.inl rfl) rfl
  | some value =>
    cases value with
    | items form additional =>
      have known := Members.mem_of_lookup found
      cases form with
      | absent => exact made (.inr ⟨_, known⟩) rfl
      | every schema =>
        dsimp only
        split
        · exact .inl ⟨_, rfl⟩
        · exact made (.inr ⟨_, known⟩) rfl
      | each schemas =>
        dsimp only
        split
        · exact .inl ⟨_, rfl⟩
        · exact made (.inr ⟨_, known⟩) rfl
    | _ => exact made (.inl rfl) rfl

/-- The schemas in what is made of items are those that were given. -/
theorem makeItems_ok {every additional : Option Schema} {each : Option (List Schema)}
    (ok : KeywordValue.makeItems every each additional = .ok value) :
    value.kind = .items ∧ value.target? = none ∧ ∀ schema ∈ value.schemas,
      schema ∈ every ∨ (∃ schemas ∈ each, schema ∈ schemas) ∨ schema ∈ additional := by
  unfold KeywordValue.makeItems at ok
  split at ok
  · cases ok
  · cases ok
    refine ⟨rfl, rfl, fun schema mem => ?_⟩
    rcases List.mem_cons.1 mem with same | more
    · exact .inl (congrArg some same.symm)
    · exact .inr (.inr (Option.mem_toList.1 more))
  · next schemas =>
    cases ok
    refine ⟨rfl, rfl, fun schema mem => ?_⟩
    rcases List.mem_append.1 mem with listed | more
    · exact .inr (.inl ⟨schemas, rfl, listed⟩)
    · exact .inr (.inr (Option.mem_toList.1 more))
  · cases ok
    exact ⟨rfl, rfl, fun schema mem => .inr (.inr (Option.mem_toList.1 mem))⟩

theorem fits_items (kind : value.kind = .items) : Fits Builtin.items value := by
  refine ⟨?_, fun same => absurd same (by decide)⟩
  rw [kind]
  decide

end SchemaBuilder

theorem AreWithin.mono {size size' : Nat} {keywords : List (Keyword × KeywordValue)}
    (le : size ≤ size') (within : AreWithin size keywords) : AreWithin size' keywords :=
  fun entry mem => (within entry mem).mono le

/-! ## Keywords of the drafts -/

namespace Keyword

/-- The shapes and kinds of a keyword go together in a draft. -/
structure IsUsual (keyword : Keyword) (draft : Draft) : Prop where
  kind : SchemaBuilder.takesKind keyword (keyword.variantFor draft).kind = true
  members : (keyword.variantFor draft).kind = .schemaMap ∨
    (keyword.variantFor draft).kind = .dependencies →
    ∀ shape ∈ (keyword.variantFor draft).expects, shape = .object
  types : (keyword.variantFor draft).kind = .type →
    ∀ shape ∈ (keyword.variantFor draft).expects, shape = .array ∨ shape = .string
  schemas : (keyword.variantFor draft).kind = .schemaList →
    ∀ shape ∈ (keyword.variantFor draft).expects, shape = .object ∨ shape = .array
  values : (keyword.variantFor draft).kind = .jsonArray →
    ∀ shape ∈ (keyword.variantFor draft).expects, shape = .array
  text : keyword = Builtin.pattern → (keyword.variantFor draft).kind = .string ∧
    ∀ shape ∈ (keyword.variantFor draft).expects, shape = .string

theorem isUsual_of_mem {keyword : Keyword} (known : keyword ∈ Builtin.all) (draft : Draft) :
    keyword.IsUsual draft := by
  have all : ∀ keyword ∈ Builtin.all, ∀ draft ∈ Draft.all,
      let variant := keyword.variantFor draft
      SchemaBuilder.takesKind keyword variant.kind = true ∧
      (variant.kind = .schemaMap ∨ variant.kind = .dependencies →
        ∀ shape ∈ variant.expects, shape = .object) ∧
      (variant.kind = .type → ∀ shape ∈ variant.expects, shape = .array ∨ shape = .string) ∧
      (variant.kind = .schemaList →
        ∀ shape ∈ variant.expects, shape = .object ∨ shape = .array) ∧
      (variant.kind = .jsonArray → ∀ shape ∈ variant.expects, shape = .array) ∧
      (keyword = Builtin.pattern → variant.kind = .string ∧
        ∀ shape ∈ variant.expects, shape = .string) := by
    decide +kernel
  have mem : draft ∈ Draft.all := by cases draft <;> decide
  obtain ⟨kind, members, types, schemas, values, text⟩ := all keyword known draft mem
  exact ⟨kind, members, types, schemas, values, text⟩

variable {keyword : Keyword} {draft : Draft} {value : Json} {shape : Shape}
  {loaded : KeywordValue}

/-- A value of the kind that the draft says fits, if a text is kept as it is. -/
theorem IsUsual.fits (usual : keyword.IsUsual draft) (shaped : value.shape? = some shape)
    (expected : shape ∈ (keyword.variantFor draft).expects)
    (kind : loaded.kind = (keyword.variantFor draft).kind)
    (literal : (keyword.variantFor draft).kind = .string → loaded.literal? = some value) :
    SchemaBuilder.Fits keyword loaded := by
  refine ⟨kind ▸ usual.kind, fun same => ?_⟩
  obtain ⟨string, shapes⟩ := usual.text same
  rw [shapes shape expected] at shaped
  rw [literal string]
  cases value with
  | string text => exact ⟨text, rfl⟩
  | _ => cases shaped

theorem fits_required (kind : loaded.kind = .boolean ∨ loaded.kind = .stringSet) :
    SchemaBuilder.Fits Builtin.required loaded := by
  refine ⟨?_, fun same => absurd same (by decide)⟩
  rcases kind with same | same
  · rw [same]
    decide
  · rw [same]
    decide

end Keyword

namespace Load

variable {keys : Set String} {loader : Loader} {load : NodeLoader} {depth : Nat} {w : World keys}

/-! ## Steps of loading -/

/-- What is left to load of an object when its handle is in the cache. -/
def loadStarted (loader : Loader) (load : NodeLoader) (members : List (String × Json))
    (draft : Draft) (location : Location) (handle : HandleId) : Load Schema := do
  let builder := SchemaBuilder.empty (some location) draft
  let builder ←
    match members.lookup Builtin.ref.key with
    | some ref => loadReference loader load members ref location builder
    | none => loadKeywords loader load members location draft builder
  let schema ← addNode location draft builder.keywords
  bind handle schema
  return schema

theorem loadObject_eq (loader : Loader) (load : NodeLoader) (members : List (String × Json))
    (location : Location) (draft : Draft) :
    loadObject loader load members location draft =
      (match members.lookup Builtin.ref.key, members.lookup draft.idKey with
        | none, some identifier => applyIdentifier loader identifier location
        | _, _ => pure location) >>= fun location =>
      start location >>= loadStarted loader load members draft location := by
  unfold loadObject loadStarted
  cases members.lookup Builtin.ref.key <;> cases members.lookup draft.idKey <;> rfl

/-- What an object says: where it refers to, or its keywords. -/
def loadContent (loader : Loader) (load : NodeLoader) (members : List (String × Json))
    (draft : Draft) (location : Location) : Load SchemaBuilder :=
  let builder := SchemaBuilder.empty (some location) draft
  match members.lookup Builtin.ref.key with
  | some ref => loadReference loader load members ref location builder
  | none => loadKeywords loader load members location draft builder

theorem loadStarted_eq (loader : Loader) (load : NodeLoader) (members : List (String × Json))
    (draft : Draft) (location : Location) (handle : HandleId) :
    loadStarted loader load members draft location handle =
      loadContent loader load members draft location >>= fun builder =>
        addNode location draft builder.keywords >>= fun schema =>
          bind handle schema >>= fun _ => pure schema := by
  unfold loadStarted loadContent
  cases members.lookup Builtin.ref.key <;> rfl

/-- Puts a reference under its keyword, with the handle that its text leads to. -/
def putReference (loader : Loader) (load : NodeLoader) (ref : String) (location : Location)
    (builder : SchemaBuilder) : Load SchemaBuilder := do
  match Uri.resolve location.scope ref with
  | .error fault =>
    recordError loader .uriMalformed (location.child [Builtin.ref.key])
      (.badReference ref (.badUri fault))
    return builder
  | .ok uri =>
    let handle ← resolve loader load uri location
    check (builder.put Builtin.ref (.reference ref uri handle))

/-! ## Values of keywords -/

theorem Ends.yields {α : Type} {act : Load α} {Q : α → World keys → Prop} (h : Ends act w Q) :
    Yields act w Q :=
  after_stop h (fun _ _ => World.breaks_of_stops)

theorem yields_check {α : Type} {x : Except Fault α} {Q : α → World keys → Prop}
    (error : ∀ fault, x = .error fault → fault.Escapes ∨ fault.isValueFault = true)
    (ok : ∀ a, x = .ok a → Q a w) : Yields (check x) w Q := by
  refine after_check (fun fault fails => ?_) ok
  rcases error fault fails with escapes | unusable
  · exact World.breaks_of_stops (World.stops_fault escapes)
  · exact World.breaks_fault unusable

theorem after_put {builder : SchemaBuilder} {keyword : Keyword} {value : KeywordValue}
    (within : AreWithin w.size builder.keywords) (inside : value.IsWithin w.size)
    (fits : SchemaBuilder.Fits keyword value) :
    Yields (check (builder.put keyword value)) w
      (fun builder w' => AreWithin w'.size builder.keywords) :=
  yields_check (fun _ fails => SchemaBuilder.put_error fits fails)
    (fun _ ok => SchemaBuilder.put_within within inside ok)

/-- A loop that loads schemas one after the other. -/
theorem after_each {α β : Type} {f : α → Load β} (part : β → Schema) (xs : List α)
    (each : ∀ x ∈ xs, ∀ w', w ≤ w' → Ends (f x) w' (fun y w'' => (part y).IsWithin w''.size)) :
    Ends (xs.mapM f) w (fun ys w' => ∀ y ∈ ys, (part y).IsWithin w'.size) := by
  refine after_mono (after_mapM (Q := fun _ y w' => (part y).IsWithin w'.size) ?_ xs each) ?_
  · exact fun _ _ _ _ up within => within.mono (World.size_le up)
  · intro ys w' _ related y mem
    obtain ⟨_, _, within⟩ := exists_of_forall₂ related.flip mem
    exact within

theorem names_error {key : String} {value : Json} {allowEmpty : Bool} {fault : Fault}
    (fails : Digest.names key value allowEmpty = .error fault) : fault.isValueFault = true := by
  unfold Digest.names at fails
  split at fails
  · split at fails
    · cases fails
      rfl
    · split at fails
      · cases fails
        rfl
      · split at fails
        · cases fails
        · cases fails
          rfl
  · cases fails
    rfl

theorem isWithin_plain {size : Nat} {value : KeywordValue} (target : value.target? = none)
    (schemas : value.schemas = []) : value.IsWithin size := by
  constructor
  · rw [target]
    exact fun _ same => nomatch same
  · rw [schemas]
    exact fun _ mem => absurd mem List.not_mem_nil

theorem isWithin_schemas {size : Nat} {value : KeywordValue} (target : value.target? = none)
    (within : ∀ schema ∈ value.schemas, schema.IsWithin size) : value.IsWithin size := by
  refine ⟨?_, within⟩
  rw [target]
  exact fun _ same => nomatch same

theorem foldlM_error {α β : Type} {f : β → α → Except Fault β} {xs : List α} {init : β}
    {fault : Fault} (fails : xs.foldlM f init = .error fault) : ∃ b x, f b x = .error fault := by
  induction xs generalizing init with
  | nil => cases fails
  | cons x rest ih =>
    rw [List.foldlM_cons] at fails
    rcases except_bind_error fails with here | ⟨_, _, later⟩
    · exact ⟨init, x, here⟩
    · exact ih later

theorem types_error {key : String} {value : Json} {shape : Shape} {draft : Draft} {fault : Fault}
    (shaped : value.shape? = some shape) (usual : shape = .array ∨ shape = .string)
    (fails : Digest.types key value draft = .error fault) : fault.isValueFault = true := by
  have added : ∀ {types : List InstanceType} {named : Json},
      Digest.addType key draft types named = .error fault → fault.isValueFault = true := by
    intro types named fails
    unfold Digest.addType at fails
    split at fails
    · split at fails
      · cases fails
      · split at fails
        · cases fails
          rfl
        · split at fails
          · split at fails
            · cases fails
            · cases fails
              rfl
          · cases fails
    · cases fails
      rfl
  have rest : ∀ {named : List Json}, (if named.isEmpty && draft ≠ .draft3 then
        (throw (.keywordValue key .noTypes) : Except Fault PUnit) >>= fun _ => do
          let types ← named.foldlM (Digest.addType key draft) []
          return .types (Keyword.ordered InstanceType.all types)
      else do
        let types ← named.foldlM (Digest.addType key draft) []
        return .types (Keyword.ordered InstanceType.all types) : Except Fault KeywordValue)
        = .error fault → fault.isValueFault = true := by
    intro named fails
    split at fails
    · cases fails
      rfl
    · rcases except_bind_error fails with bad | ⟨_, _, fails⟩
      · obtain ⟨_, _, bad⟩ := foldlM_error bad
        exact added bad
      · cases fails
  unfold Digest.types at fails
  cases value with
  | string text =>
    rcases except_bind_error fails with bad | ⟨named, _, fails⟩
    · cases bad
    · exact rest fails
  | array items =>
    rcases except_bind_error fails with bad | ⟨named, _, fails⟩
    · cases bad
    · exact rest fails
  | _ => cases shaped <;> rcases usual with same | same <;> cases same

theorem types_ok {key : String} {value : Json} {draft : Draft} {loaded : KeywordValue}
    (ok : Digest.types key value draft = .ok loaded) : ∃ types, loaded = .types types := by
  have rest : ∀ {named : List Json}, (do
      let types ← named.foldlM (Digest.addType key draft) []
      return .types (Keyword.ordered InstanceType.all types) : Except Fault KeywordValue)
        = .ok loaded → ∃ types, loaded = .types types := by
    intro named ok
    obtain ⟨types, _, ok⟩ := except_bind_ok ok
    cases ok
    exact ⟨_, rfl⟩
  unfold Digest.types at ok
  dsimp only at ok
  split at ok
  · obtain ⟨named, _, ok⟩ := except_bind_ok ok
    split at ok
    · cases ok
    · exact rest ok
  · obtain ⟨named, _, ok⟩ := except_bind_ok ok
    split at ok
    · cases ok
    · exact rest ok

theorem required_error {key : String} {value : Json} {draft : Draft} {fault : Fault}
    (fails : Digest.required key value draft = .error fault) : fault.isValueFault = true := by
  unfold Digest.required at fails
  split at fails
  · cases fails
  · rcases except_bind_error fails with bad | ⟨_, _, fails⟩
    · exact names_error bad
    · cases fails

theorem required_ok {key : String} {value : Json} {draft : Draft} {loaded : KeywordValue}
    {size : Nat} (ok : Digest.required key value draft = .ok loaded) :
    loaded.IsWithin size ∧ (loaded.kind = .boolean ∨ loaded.kind = .stringSet) := by
  unfold Digest.required at ok
  split at ok
  · cases ok
    exact ⟨isWithin_plain rfl rfl, .inl rfl⟩
  · obtain ⟨names, _, ok⟩ := except_bind_ok ok
    cases ok
    exact ⟨isWithin_plain rfl rfl, .inr rfl⟩

theorem leaf_error {key : String} {kind : KeywordKind} {value : Json} {fault : Fault}
    (array : kind = .jsonArray → value.shape? = some .array)
    (fails : Digest.leaf key kind value = .error fault) : fault.isValueFault = true := by
  unfold Digest.leaf at fails
  split at fails
  case h_5 =>
    have shaped := array rfl
    cases value with
    | array items => cases fails
    | _ => cases shaped
  case h_6 =>
    cases fails
    rfl
  all_goals cases fails

theorem leaf_ok {key : String} {kind : KeywordKind} {value : Json} {loaded : KeywordValue}
    {size : Nat} (ok : Digest.leaf key kind value = .ok loaded) :
    loaded.IsWithin size ∧ loaded.kind = kind ∧
      (kind = .string → loaded.literal? = some value) := by
  unfold Digest.leaf at ok
  split at ok
  case h_5 =>
    obtain ⟨values, _, ok⟩ := except_bind_ok ok
    cases ok
    exact ⟨isWithin_plain rfl rfl, rfl, fun same => nomatch same⟩
  case h_6 => cases ok
  all_goals
    cases ok
    exact ⟨isWithin_plain rfl rfl, rfl, fun _ => rfl⟩

theorem after_addKeyword {keyword : Keyword} {builder : SchemaBuilder} {act : Load KeywordValue}
    (location : Location) (within : AreWithin w.size builder.keywords)
    (body : Yields act w
      (fun loaded w' => loaded.IsWithin w'.size ∧ SchemaBuilder.Fits keyword loaded)) :
    Ends (addKeyword loader keyword location act builder) w
      (fun builder w' => AreWithin w'.size builder.keywords) := by
  have put : Yields (do check (builder.put keyword (← act))) w
      (fun builder w' => AreWithin w'.size builder.keywords) := by
    refine after_bind body ?_
    rintro loaded w' up ⟨inside, fits⟩
    exact after_put (within.mono (World.size_le up)) inside fits
  refine after_bind (after_recordingFaults loader location put) (fun result w' up added => ?_)
  refine after_pure ?_
  cases result with
  | some builder' => exact added builder' rfl
  | none => exact within.mono (World.size_le up)

theorem after_recordUnknown (key : String) (location : Location) :
    Ends (recordUnknown loader key location) w (fun _ _ => True) := by
  unfold recordUnknown
  split
  · split
    · exact after_recordError _ _ _ _
    · exact after_recordWarning _ rfl _ _
  · exact after_pure trivial

/-- A keyword that the registry of the drafts finds is one of theirs. -/
theorem find_default {key : String} {draft : Draft} {keyword : Keyword}
    (found : Registry.default.find? key (some draft) = some keyword) :
    keyword ∈ Builtin.all ∧ keyword.key = key := by
  have found : Builtin.all.find? (fun keyword => keyword.key = key) = some keyword :=
    (Option.filter_eq_some_iff.1 found).1
  exact ⟨List.mem_of_find?_eq_some found, by simpa using List.find?_some found⟩

theorem after_items {builder : SchemaBuilder} {every : Option Schema}
    {each : Option (List Schema)} (within : AreWithin w.size builder.keywords)
    (single : ∀ schema ∈ every, schema.IsWithin w.size)
    (listed : ∀ schemas ∈ each, ∀ schema ∈ schemas, schema.IsWithin w.size) :
    Yields (check (builder.items every each)) w
      (fun builder w' => AreWithin w'.size builder.keywords) := by
  rcases builder.items_cases every each with ⟨reason, fails⟩ | ⟨additional, value, known, made, put⟩
  · rw [fails]
    exact after_throw (World.breaks_fault rfl)
  · obtain ⟨kind, target, schemas⟩ := SchemaBuilder.makeItems_ok made
    rw [put]
    refine after_put within (isWithin_schemas target (fun schema mem => ?_))
      (SchemaBuilder.fits_items kind)
    rcases schemas schema mem with only | ⟨those, given, inside⟩ | more
    · exact single schema only
    · exact listed those given schema inside
    · rcases known with rfl | ⟨form, entry⟩
      · cases more
      · refine (within _ entry).2 schema (List.mem_append_right _ ?_)
        exact Option.mem_toList.2 more

theorem after_additionalItems {builder : SchemaBuilder} {schema : Schema}
    (within : AreWithin w.size builder.keywords) (inside : schema.IsWithin w.size) :
    Yields (check (builder.additionalItems schema)) w
      (fun builder w' => AreWithin w'.size builder.keywords) := by
  refine after_put within (isWithin_schemas rfl (fun other mem => ?_))
    (SchemaBuilder.fits_items rfl)
  rcases List.mem_append.1 mem with old | new
  · split at old
    · next form additional found =>
      exact (within _ (Members.mem_of_lookup found)).2 other (List.mem_append_left _ old)
    · exact absurd old List.not_mem_nil
  · rw [List.mem_singleton.1 new]
    exact inside

theorem limit_error {key exclusiveKey : String} {bound exclusive : Option Json} {draft : Draft}
    {fault : Fault} (fails : Digest.limit key exclusiveKey bound exclusive draft = .error fault) :
    fault.isValueFault = true := by
  have made : ∀ {bound exclusiveBound : Option Json} {flag : Bool},
      (do return some (← Limit.make bound flag exclusiveBound) : Except Fault (Option Limit))
        = .error fault → fault.isValueFault = true := by
    intro bound exclusiveBound flag fails
    rcases except_bind_error fails with bad | ⟨_, _, fails⟩
    · unfold Limit.make at bad
      split at bad
      · cases bad
        rfl
      · split at bad
        · cases bad
          rfl
        · cases bad
    · cases fails
  unfold Digest.limit at fails
  dsimp only at fails
  split at fails
  · cases fails
    rfl
  · split at fails
    · unfold Digest.twoLimits at fails
      split at fails
      · cases fails
      · exact made fails
    · unfold Digest.flaggedLimit at fails
      split at fails
      · cases fails
      · cases fails
        rfl
      · exact made fails

theorem after_loadLimit {location : Location} {draft : Draft} {accepted : List (String × Json)}
    {bound : Keyword} (exclusive : Keyword) {builder : SchemaBuilder}
    (takes : SchemaBuilder.takesKind bound .limit = true) (other : bound ≠ Builtin.pattern)
    (within : AreWithin w.size builder.keywords) :
    Ends (loadLimit loader location draft accepted bound exclusive builder) w
      (fun builder w' => AreWithin w'.size builder.keywords) := by
  unfold loadLimit
  dsimp only
  refine after_bind (after_recordingFaults (Q := fun builder w' => AreWithin w'.size builder.keywords)
    loader _ ?_) (fun result w' up added => after_pure ?_)
  · refine after_bind (Q := fun _ w' => w' = w)
      (yields_check (fun _ fails => .inr (limit_error fails)) (fun _ _ => rfl)) ?_
    rintro limit _ _ rfl
    cases limit with
    | some limit =>
      exact after_put within (isWithin_plain rfl rfl) ⟨takes, fun same => absurd same other⟩
    | none => exact after_pure within
  · cases result with
    | some builder' => exact added builder' rfl
    | none => exact within.mono (World.size_le up)

theorem present_some {value : Option Json} {found : Json}
    (present : Digest.present value = some found) : value = some found :=
  (Option.filter_eq_some_iff.1 present).1

section Objects

variable (loads : LoadsWithin keys depth load)
include loads

theorem after_loadItem {items : List Json} (location : Location) (room : w.HasRoom depth)
    (proper : (Json.array items).IsProper)
    (keyed : (Json.array items).IsKeyed keys location.documentUri location.pointer)
    (draft : Draft) :
    Ends (items.zipIdx.mapM fun (item, position) =>
        load item (location.child [toString position]) draft) w
      (fun schemas w' => ∀ schema ∈ schemas, schema.IsWithin w'.size) := by
  refine after_each id _ (fun numbered mem w' up => ?_)
  obtain ⟨item, position⟩ := numbered
  have inside := (Json.areProper_iff items).1 proper item (List.fst_mem_of_mem_zipIdx mem)
  exact loads w' item (location.child [toString position]) draft (room.later up) inside
    (keyed.item mem)

theorem after_loadMap {members : List (String × Json)} (location : Location)
    (room : w.HasRoom depth) (proper : (Json.object members).IsProper)
    (keyed : (Json.object members).IsKeyed keys location.documentUri location.pointer)
    (draft : Draft) :
    Ends (loadMap load members location draft) w
      (fun schemas w' => ∀ entry ∈ schemas, entry.2.IsWithin w'.size) := by
  refine after_each Prod.snd _ (fun member mem w' up => ?_)
  obtain ⟨name, value⟩ := member
  have inside := (Json.areProperMembers_iff members).1 proper.2 _ mem
  refine after_bind (loads w' value (location.child [name]) draft (room.later up) inside
    (keyed.member mem)) ?_
  exact fun schema w'' _ within => after_pure within

/-! ### Lists and dependencies -/

theorem after_loadList {key : String} {value : Json} (location : Location) {shape : Shape}
    (room : w.HasRoom depth) (proper : value.IsProper)
    (keyed : value.IsKeyed keys location.documentUri location.pointer)
    (shaped : value.shape? = some shape) (usual : shape = .object ∨ shape = .array)
    (draft : Draft) : Yields (loadList load key value location draft) w
      (fun schemas w' => ∀ schema ∈ schemas, schema.IsWithin w'.size) := by
  cases value with
  | object members =>
    refine after_bind (loads w _ location draft room proper keyed).yields ?_
    intro schema w' _ within
    refine after_pure (fun other mem => ?_)
    rw [List.mem_singleton.1 mem]
    exact within
  | array items =>
    refine after_bind (Q := fun _ w' => w' = w) (yields_check ?_ (fun _ _ => rfl)) ?_
    · intro fault fails
      unfold Digest.checkSchemaList at fails
      split at fails
      · cases fails
      · cases fails
        exact .inr rfl
    · rintro _ _ _ rfl
      exact (after_loadItem loads location room proper keyed draft).yields
  | _ => cases shaped <;> rcases usual with same | same <;> cases same

theorem after_loadDependencies {key : String} {members : List (String × Json)}
    (location : Location) (room : w.HasRoom depth) (proper : (Json.object members).IsProper)
    (keyed : (Json.object members).IsKeyed keys location.documentUri location.pointer)
    (draft : Draft) : Yields (loadDependencies load key members location draft) w
      (fun value w' => value.IsWithin w'.size ∧ value.kind = .dependencies) := by
  unfold loadDependencies
  dsimp only
  refine after_bind (after_foldlM (I := fun found w' => ∀ entry ∈ found.2, entry.2.IsWithin w'.size)
    members ([], []) (fun _ mem => absurd mem List.not_mem_nil) ?_) ?_
  · rintro ⟨name, value⟩ mem ⟨names, schemas⟩ w₁ up within
    have inside := (Json.areProperMembers_iff members).1 proper.2 _ mem
    have grown : Yields (do
          let schema ← load value (location.child [name]) draft
          return (names, schemas ++ [(name, schema)])) w₁
        (fun found w' => ∀ entry ∈ found.2, entry.2.IsWithin w'.size) := by
      refine after_bind (loads w₁ value (location.child [name]) draft (room.later up) inside
        (keyed.member mem)).yields ?_
      intro schema w₂ up₂ within'
      refine after_pure (fun entry mem => ?_)
      rcases List.mem_append.1 mem with old | new
      · exact (within entry old).mono (World.size_le up₂)
      · cases List.mem_singleton.1 new
        exact within'
    have named : Yields (do
          let needed ← check (Digest.dependency key name value draft)
          return (names ++ [(name, needed)], schemas)) w₁
        (fun found w' => ∀ entry ∈ found.2, entry.2.IsWithin w'.size) := by
      refine after_bind (Q := fun _ w' => w' = w₁) (yields_check (fun fault fails => ?_)
        (fun _ _ => rfl)) ?_
      · unfold Digest.dependency at fails
        split at fails
        · cases fails
        · exact .inr (names_error fails)
      · rintro needed _ _ rfl
        exact after_pure within
    cases value with
    | object members => exact grown
    | bool value => exact grown
    | _ => exact named
  · rintro ⟨names, schemas⟩ w₁ _ within
    refine yields_check (fun fault fails => ?_) (fun value ok => ?_)
    · unfold KeywordValue.makeDependencies at fails
      split at fails
      · cases fails
      · cases fails
        exact .inr rfl
    · unfold KeywordValue.makeDependencies at ok
      split at ok
      · cases ok
        refine ⟨isWithin_schemas rfl (fun schema mem => ?_), rfl⟩
        obtain ⟨entry, listed, rfl⟩ := List.mem_map.1 mem
        exact within entry listed
      · cases ok

/-! ### One value -/

/-- A keyword of the drafts gets a value that it may hold. -/
theorem after_loadValue {keyword : Keyword} {value : Json} {location : Location} {shape : Shape}
    {draft : Draft} (room : w.HasRoom depth) (proper : value.IsProper)
    (keyed : value.IsKeyed keys location.documentUri (location.pointer ++ [keyword.key]))
    (shaped : value.shape? = some shape)
    (expected : shape ∈ (keyword.variantFor draft).expects) (usual : keyword.IsUsual draft) :
    Yields (loadValue load keyword (keyword.variantFor draft).kind value location draft) w
      (fun loaded w' => loaded.IsWithin w'.size ∧ SchemaBuilder.Fits keyword loaded) := by
  have fits : ∀ {loaded : KeywordValue}, loaded.kind = (keyword.variantFor draft).kind →
      ((keyword.variantFor draft).kind = .string → loaded.literal? = some value) →
      SchemaBuilder.Fits keyword loaded := usual.fits shaped expected
  have other : ∀ {kind : KeywordKind} {loaded : KeywordValue},
      (keyword.variantFor draft).kind = kind → (kind == .string) = false →
      (keyword.variantFor draft).kind = .string → loaded.literal? = some value := by
    intro kind loaded same different string
    rw [← same, string] at different
    cases different
  unfold loadValue
  dsimp only
  split
  · next kind =>
    refine after_bind (loads w value (location.child [keyword.key]) draft room proper keyed).yields ?_
    intro schema w' _ within
    refine after_pure ⟨isWithin_schemas rfl (fun other mem => ?_), fits kind.symm (other kind rfl)⟩
    rw [List.mem_singleton.1 mem]
    exact within
  · next kind =>
    refine after_bind (after_loadList loads (location.child [keyword.key]) room proper keyed shaped
      (usual.schemas kind shape expected) draft) ?_
    exact fun schemas w' _ within =>
      after_pure ⟨isWithin_schemas rfl within, fits kind.symm (other kind rfl)⟩
  · next kind =>
    rw [usual.members (.inl kind) shape expected] at shaped
    cases value with
    | object members =>
      refine after_bind
        (after_loadMap loads (location.child [keyword.key]) room proper keyed draft).yields ?_
      intro schemas w' _ within
      refine after_pure
        ⟨isWithin_schemas rfl (fun schema mem => ?_), fits kind.symm (other kind rfl)⟩
      obtain ⟨entry, listed, rfl⟩ := List.mem_map.1 mem
      exact within entry listed
    | _ => cases shaped
  · next kind =>
    refine yields_check (fun fault fails => .inr ?_) (fun loaded ok => ?_)
    · exact types_error shaped (usual.types kind shape expected) fails
    · obtain ⟨types, rfl⟩ := types_ok ok
      exact ⟨isWithin_plain rfl rfl, fits kind.symm (other kind rfl)⟩
  · split
    · next same =>
      subst same
      refine yields_check (fun fault fails => .inr (required_error fails)) (fun loaded ok => ?_)
      obtain ⟨within, kind⟩ := required_ok ok
      exact ⟨within, Keyword.fits_required kind⟩
    · split
      · next kind =>
        refine after_bind (Q := fun _ _ => True)
          (yields_check (fun fault fails => .inr (names_error fails)) (fun _ _ => trivial)) ?_
        exact fun names w' _ _ =>
          after_pure ⟨isWithin_plain rfl rfl, fits kind.symm (other kind rfl)⟩
      · next kind =>
        rw [usual.members (.inr kind) shape expected] at shaped
        cases value with
        | object members =>
          refine after_mono
            (after_loadDependencies loads (location.child [keyword.key]) room proper keyed draft) ?_
          rintro loaded w' _ ⟨within, same⟩
          exact ⟨within, fits (same.trans kind.symm) (other kind rfl)⟩
        | _ => cases shaped
      · refine yields_check (fun fault fails => .inr ?_) (fun loaded ok => ?_)
        · refine leaf_error (fun kind => ?_) fails
          rw [shaped, usual.values kind shape expected]
        · obtain ⟨within, kind, literal⟩ := leaf_ok ok
          exact ⟨within, fits kind literal⟩

/-! ## Members of an object -/

theorem after_loadMember (registry : loader.registry = .default) {location : Location}
    {draft : Draft} {key : String} {value : Json} {accepted : List (String × Json)}
    {builder : SchemaBuilder} (room : w.HasRoom depth) (proper : value.IsProper)
    (keyed : value.IsKeyed keys location.documentUri (location.pointer ++ [key]))
    (within : AreWithin w.size builder.keywords) :
    Ends (loadMember loader load location draft key value accepted builder) w
      (fun found w' => (∀ member ∈ found.1, member ∈ accepted ∨ member = (key, value)) ∧
        AreWithin w'.size found.2.keywords) := by
  have same : ∀ member ∈ accepted, member ∈ accepted ∨ member = (key, value) :=
    fun _ mem => .inl mem
  have longer : ∀ member ∈ accepted ++ [(key, value)],
      member ∈ accepted ∨ member = (key, value) :=
    fun _ mem => (List.mem_append.1 mem).imp_right List.mem_singleton.1
  unfold loadMember
  rw [registry]
  split
  · refine after_bind (after_recordUnknown key location) (fun _ w' up _ => ?_)
    exact after_pure ⟨same, within.mono (World.size_le up)⟩
  · next keyword found =>
    obtain ⟨known, rfl⟩ := find_default found
    dsimp only
    split
    · next shapeless =>
      cases value with
      | bytes text => exact proper.elim
      | _ => cases shapeless
    · next shape shaped =>
      split
      · refine after_bind (after_recordError _ _ _ _) (fun _ w' up _ => ?_)
        exact after_pure ⟨same, within.mono (World.size_le up)⟩
      · next expected =>
        split
        · exact after_pure ⟨longer, within⟩
        · have expected : shape ∈ (keyword.variantFor draft).expects := by
            simpa using expected
          refine after_bind (after_addKeyword (location.child [keyword.key]) within
            (after_loadValue loads room proper keyed shaped expected
              (Keyword.isUsual_of_mem known draft))) (fun builder' w' up inside => ?_)
          exact after_pure ⟨longer, inside⟩

/-- The members that were gathered stand below the object. -/
theorem after_loadItems {members accepted : List (String × Json)} {location : Location}
    {builder : SchemaBuilder} (gathered : ∀ member ∈ accepted, member ∈ members)
    (room : w.HasRoom depth) (proper : (Json.object members).IsProper)
    (keyed : (Json.object members).IsKeyed keys location.documentUri location.pointer)
    (draft : Draft) (within : AreWithin w.size builder.keywords) :
    Ends (loadItems loader load location draft accepted builder) w
      (fun builder w' => AreWithin w'.size builder.keywords) := by
  have member : ∀ {key : String} {value : Json},
      Digest.present (accepted.lookup key) = some value → value.IsProper ∧
        value.IsKeyed keys (location.child [key]).documentUri (location.child [key]).pointer := by
    intro key value found
    have mem := gathered _ (Members.mem_of_lookup (present_some found))
    exact ⟨(Json.areProperMembers_iff members).1 proper.2 _ mem, keyed.member mem⟩
  unfold loadItems
  dsimp only
  refine after_bind (after_recordingFaults (Q := fun builder w' => AreWithin w'.size builder.keywords)
    loader _ ?_) (fun result w₁ up₁ withItems => ?_)
  · split
    · next items found =>
      obtain ⟨proper', keyed'⟩ := member found
      refine after_bind (after_loadItem loads (location.child [Builtin.items.key]) room proper'
        keyed' draft).yields (fun schemas w₁ up₁ listed => ?_)
      refine after_items (within.mono (World.size_le up₁)) (fun _ mem => nomatch mem) ?_
      rintro _ ⟨⟩
      exact listed
    · next value _ found =>
      obtain ⟨proper', keyed'⟩ := member found
      refine after_bind (loads w value (location.child [Builtin.items.key]) draft room proper'
        keyed').yields (fun schema w₁ up₁ single => ?_)
      refine after_items (within.mono (World.size_le up₁)) ?_ (fun _ mem => nomatch mem)
      rintro _ ⟨⟩
      exact single
    · exact after_pure within
  · cases result with
    | none => exact after_pure (within.mono (World.size_le up₁))
    | some withItems' =>
      have within₁ := withItems withItems' rfl
      refine after_bind (after_recordingFaults
        (Q := fun builder w' => AreWithin w'.size builder.keywords) loader _ ?_)
        (fun result w₂ up₂ added => after_pure ?_)
      · split
        · next value found =>
          obtain ⟨proper', keyed'⟩ := member found
          refine after_bind (loads w₁ value (location.child [Builtin.additionalItems.key]) draft
            (room.later up₁) proper' keyed').yields (fun schema w₂ up₂ inside => ?_)
          exact after_additionalItems (within₁.mono (World.size_le up₂)) inside
        · exact after_pure within₁
      · cases result with
        | some builder' => exact added builder' rfl
        | none => exact within₁.mono (World.size_le up₂)

theorem after_loadKeywords (registry : loader.registry = .default)
    {members : List (String × Json)} {location : Location} {builder : SchemaBuilder}
    (room : w.HasRoom depth) (proper : (Json.object members).IsProper)
    (keyed : (Json.object members).IsKeyed keys location.documentUri location.pointer)
    (draft : Draft) (within : AreWithin w.size builder.keywords) :
    Ends (loadKeywords loader load members location draft builder) w
      (fun builder w' => AreWithin w'.size builder.keywords) := by
  unfold loadKeywords
  dsimp only
  refine after_bind (after_foldlM (I := fun found w' => (∀ member ∈ found.1, member ∈ members) ∧
    AreWithin w'.size found.2.keywords) members ([], builder) ⟨nofun, within⟩ ?_) ?_
  · rintro ⟨key, value⟩ mem ⟨accepted, builder⟩ w₁ up₁ ⟨gathered, within₁⟩
    have proper' := (Json.areProperMembers_iff members).1 proper.2 _ mem
    refine after_mono (after_loadMember loads registry (room.later up₁) proper'
      (keyed.member mem) within₁) ?_
    rintro ⟨accepted', builder'⟩ w₂ _ ⟨origin, within₂⟩
    refine ⟨fun member inside => ?_, within₂⟩
    rcases origin member inside with old | rfl
    · exact gathered member old
    · exact mem
  · rintro ⟨accepted, builder₁⟩ w₁ up₁ ⟨gathered, within₁⟩
    refine after_bind (after_loadLimit Builtin.exclusiveMinimum (by decide) (by decide) within₁)
      (fun builder₂ w₂ up₂ within₂ => ?_)
    refine after_bind (after_loadLimit Builtin.exclusiveMaximum (by decide) (by decide) within₂)
      (fun builder₃ w₃ up₃ within₃ => ?_)
    split
    · exact after_loadItems loads gathered (((room.later up₁).later up₂).later up₃) proper keyed
        draft within₃
    · exact after_pure within₃

/-! ## Objects -/

theorem after_loadReference (serves : Serves keys loader) {members : List (String × Json)}
    {ref : Json} {location : Location} {builder : SchemaBuilder} (room : w.HasRoom depth)
    (within : AreWithin w.size builder.keywords) :
    Ends (loadReference loader load members ref location builder) w
      (fun builder w' => AreWithin w'.size builder.keywords) := by
  have resolved : ∀ {ref : String} {w₁ : World keys}, w ≤ w₁ →
      Ends (putReference loader load ref location builder) w₁
        (fun builder w' => AreWithin w'.size builder.keywords) := by
    intro ref w₁ up₁
    unfold putReference
    cases Uri.resolve location.scope ref with
    | error fault =>
      refine after_bind (after_recordError _ _ _ _) (fun _ w₂ up₂ _ => after_pure ?_)
      exact within.mono (World.size_le (le_trans up₁ up₂))
    | ok uri =>
      refine after_bind (after_resolve serves loads (room.later up₁) uri location)
        (fun handle w₂ up₂ inside => ?_)
      have put : builder.put Builtin.ref (.reference ref uri handle) = .ok { builder with
          keywords := Members.put builder.keywords Builtin.ref (.reference ref uri handle) } := by
        unfold SchemaBuilder.put
        rw [SchemaBuilder.check_reference]
        rfl
      rw [put]
      refine after_pure (SchemaBuilder.put_within
        (within.mono (World.size_le (le_trans up₁ up₂))) ⟨?_, ?_⟩ put)
      · rintro _ ⟨⟩
        exact inside
      · exact fun _ mem => absurd mem List.not_mem_nil
  unfold loadReference
  cases ref with
  | string ref =>
    dsimp only
    split
    · exact after_bind (after_recordWarning _ rfl _ _) (fun _ w₁ up₁ _ => resolved up₁)
    · exact resolved le_rfl
  | _ =>
    refine after_bind (after_recordError _ _ _ _) (fun _ w₁ up₁ _ => after_pure ?_)
    exact within.mono (World.size_le up₁)

end Objects

/-- An identifier does not move the schema. -/
theorem after_applyIdentifier (identifier : Json) (location : Location) :
    Ends (applyIdentifier loader identifier location) w (fun named _ =>
      named.documentUri = location.documentUri ∧ named.pointer = location.pointer) := by
  unfold applyIdentifier
  split
  · split
    · next named ok => exact after_pure (withId_place ok)
    · refine after_bind (after_recordError _ _ _ _) (fun _ _ _ _ => after_pure ?_)
      exact ⟨rfl, rfl⟩
  · exact after_pure ⟨rfl, rfl⟩

/-- The handle of an object that was not met before takes room, so what stands below it has one
level less. -/
theorem after_loadObject (registry : loader.registry = .default) (serves : Serves keys loader)
    (loads : LoadsWithin keys depth load) {members : List (String × Json)} {location : Location}
    (room : w.HasRoom (depth + 1)) (proper : (Json.object members).IsProper)
    (keyed : (Json.object members).IsKeyed keys location.documentUri location.pointer)
    (new : ∀ key, location.absoluteUri = .ok key →
      w.session.cache.handles.lookup key = none) (draft : Draft) :
    Ends (loadObject loader load members location draft) w
      (fun schema w' => schema.IsWithin w'.size) := by
  have started : ∀ {w₁ : World keys} {here : Location}, w ≤ w₁ →
      here.documentUri = location.documentUri → here.pointer = location.pointer →
      Ends (start here >>= loadStarted loader load members draft here) w₁
        (fun schema w' => schema.IsWithin w'.size) := by
    intro w₁ here up₁ document pointer
    refine after_start_bind (fun handle w₂ opened entered => ?_)
    obtain ⟨key, place, found⟩ := entered
    have same : here.absoluteUri = location.absoluteUri := by
      unfold Location.absoluteUri Location.fragment
      rw [document, pointer]
    rw [same] at place
    have room₂ : w₂.HasRoom depth :=
      room.entered (up₁.1.trans opened.extended) (keyed.mem place) (new key place) found
    have keyed₂ : (Json.object members).IsKeyed keys here.documentUri here.pointer := by
      rw [document, pointer]
      exact keyed
    have empty : AreWithin w₂.size (SchemaBuilder.empty (some here) draft).keywords :=
      fun _ mem => absurd mem List.not_mem_nil
    have closed : ∀ {act : Load SchemaBuilder},
        Ends act w₂ (fun builder w' => AreWithin w'.size builder.keywords) →
        Outcome World.session World.Stops w₁ (fun schema w' => schema.IsWithin w'.size) ((do
          let builder ← act
          let schema ← addNode here draft builder.keywords
          bind handle schema
          return schema : Load Schema).run.run w₂.session) := by
      intro act builds
      have body : Ends (do let builder ← act; addNode here draft builder.keywords) w₂
          (fun schema w' => schema.IsWithin w'.size) :=
        after_bind builds (fun builder w' _ within => after_addNode within)
      have outcome := outcome_opened opened body
      rw [bind_assoc] at outcome
      exact outcome
    unfold loadStarted
    cases members.lookup Builtin.ref.key with
    | some ref => exact closed (after_loadReference loads serves room₂ empty)
    | none => exact closed (after_loadKeywords loads registry room₂ proper keyed₂ draft empty)
  unfold loadObject
  dsimp only
  split
  · refine after_bind (after_applyIdentifier _ location) ?_
    rintro here w₁ up₁ ⟨document, pointer⟩
    exact started up₁ document pointer
  · exact started le_rfl rfl rfl

theorem after_nodeWith (registry : loader.registry = .default) (serves : Serves keys loader)
    (loads : LoadsWithin keys depth load) :
    LoadsWithin keys (depth + 1) (nodeWith loader load) := by
  intro w value location draft room proper keyed
  unfold nodeWith
  cases value with
  | bool b => exact after_pure (Schema.isWithin_ofBool b)
  | object members =>
    refine after_bind (after_lookupLocation location) ?_
    rintro found w₁ _ ⟨rfl, inside, new⟩
    cases found with
    | none => exact after_loadObject registry serves loads room proper keyed (new rfl) draft
    | some handle =>
      refine after_get_bind ?_
      split
      · next schema bound => exact after_pure (w₁.sound.graph handle schema bound)
      · exact after_referTo (inside handle rfl) location draft
  | _ =>
    refine after_bind (after_recordError _ _ _ _) (fun _ w₁ _ _ => ?_)
    exact after_pure Schema.isWithin_always

/-- Loading never goes deeper than there is room. -/
theorem after_loadNode (registry : loader.registry = .default) (serves : Serves keys loader)
    (depth : Nat) : LoadsWithin keys depth (loadNode loader depth) := by
  induction depth with
  | zero =>
    rintro w value location draft ⟨free, fewer, _⟩
    exact absurd fewer (Nat.not_lt_zero _)
  | succ depth ih => exact after_nodeWith registry serves ih

end Load

end JsonSchema
