import JsonSchema.Proofs.Pointing

/-!
# What is asked of members

`properties`, `patternProperties` and `additionalProperties` of a schema divide the members of an
object among the schemas in them. `Schema.asks` is the list of what they ask: each member under
each schema that it is meant for, and each property that has to be there and is not. It says of no
member twice the same (`nodup_asks`), and `Schema.Routes` is what is in it (`mem_asks`).

Two of the keywords mean a member for what its own name says. The third one means those that are
left over, so it has to know what the other two take.
-/

namespace JsonSchema

/-- A schema for members, by where it stands: under the name of a property, under a pattern, or for
all that are left over. -/
inductive Source where
  | property (name : String)
  | pattern (text : String)
  | additional
  deriving DecidableEq

/-- What the keywords for members ask of an object: a member is meant for a schema, or a property is
missing, with the place that says so. -/
inductive Ask where
  | member (name : String) (value : Json) (source : Source)
  | missing (name place : String)

namespace Ask

/-- The name that is meant. -/
def name : Ask → String
  | .member name _ _ => name
  | .missing name _ => name

/-- The keyword that asks. -/
def assertion : Ask → Assertion
  | .member _ _ (.property _) => .properties
  | .member _ _ (.pattern _) => .patternProperties
  | .member _ _ .additional => .additionalProperties
  | .missing _ _ => .properties

end Ask

/-- A pattern finds something in a name. -/
def Compiler.finds (compiler : Compiler) (pattern name : String) : Bool :=
  match compiler.search pattern with
  | .ok search => search name
  | .error _ => false

theorem Compiler.finds_eq_true {compiler : Compiler} {pattern name : String} :
    compiler.finds pattern name = true ↔
      ∃ search, compiler.search pattern = .ok search ∧ search name = true := by
  unfold finds
  cases compiler.search pattern with
  | ok search => simp
  | error fault => simp

theorem Compiler.finds_of_ok {compiler : Compiler} {pattern : String} {search : String → Bool}
    (ok : compiler.search pattern = .ok search) (name : String) :
    compiler.finds pattern name = search name := by
  unfold finds
  rw [ok]

namespace Schema

/-! ## Schemas for members -/

/-- A schema that a schema has for members. -/
inductive Provides (owner : Schema) : Source → Schema → Prop
  | property {schemas : List (String × Schema)} {name : String} {schema : Schema}
    (keyword : owner.get? Builtin.properties = some (.schemaMap schemas))
    (mem : (name, schema) ∈ schemas) : owner.Provides (.property name) schema
  | pattern {schemas : List (String × Schema)} {text : String} {schema : Schema}
    (keyword : owner.get? Builtin.patternProperties = some (.schemaMap schemas))
    (mem : (text, schema) ∈ schemas) : owner.Provides (.pattern text) schema
  | additional {schema : Schema}
    (keyword : owner.get? Builtin.additionalProperties = some (.schema schema)) :
    owner.Provides .additional schema

/-- A schema is meant for the members of a name: it stands under the name, under a pattern that
finds something in it, or the name is neither declared nor found by any pattern. -/
inductive Means (compiler : Compiler) (owner : Schema) (name : String) : Source → Prop
  | property : Means compiler owner name (.property name)
  | pattern {text : String} {search : String → Bool} (compiled : compiler.search text = .ok search)
    (found : search name = true) : Means compiler owner name (.pattern text)
  | additional (undeclared : name ∉ Compile.namesUnder owner Builtin.properties)
    (unmatched : ∀ text ∈ Compile.namesUnder owner Builtin.patternProperties,
      ∀ search, compiler.search text = .ok search → search name = false) :
    Means compiler owner name .additional

/-- What the keywords of a schema for members ask: every member under every schema that is meant for
it, but for a schema for additional members that accepts everything; and every flagged property that
is not there. -/
inductive Routes (compiler : Compiler) (owner : Schema) (location : String)
    (members : List (String × Json)) : Ask → Prop
  | member {name : String} {value : Json} {source : Source} {schema : Schema}
    (mem : (name, value) ∈ members) (provides : owner.Provides source schema)
    (means : owner.Means compiler name source)
    (asking : source = .additional → schema.isAlwaysValid = false) :
    owner.Routes compiler location members (.member name value source)
  | missing {name : String} {schema : Schema} (provides : owner.Provides (.property name) schema)
    (flagged : schema.IsFlagged) (absent : name ∉ Members.keys members) :
    owner.Routes compiler location members (.missing name
      (Place.join (Place.join location [Builtin.properties.key]) [name, Builtin.required.key]))

/-- A schema as documents make it: its keywords are those of the drafts, each at most once, and the
names in a map of schemas are distinct. -/
structure IsRegular (owner : Schema) : Prop where
  standard : ∀ keyword assertion value, owner.Asserts keyword assertion value →
    keyword = assertion.keyword
  once : (owner.keywords.map (·.1)).Nodup
  names : ∀ keyword schemas, (keyword, .schemaMap schemas) ∈ owner.keywords →
    (Members.keys schemas).Nodup

/-- The value of a keyword that is there once. -/
theorem IsRegular.get?_iff {owner : Schema} (regular : owner.IsRegular) {keyword : Keyword}
    {value : KeywordValue} : owner.get? keyword = some value ↔ (keyword, value) ∈ owner.keywords :=
  ⟨Members.mem_of_lookup, Members.lookup_of_mem regular.once⟩

/-- An assertion is under its keyword. -/
theorem IsRegular.get?_of_asserts {owner : Schema} (regular : owner.IsRegular) {keyword : Keyword}
    {assertion : Assertion} {value : KeywordValue}
    (asserts : owner.Asserts keyword assertion value) :
    owner.get? assertion.keyword = some value := by
  rw [← regular.standard keyword assertion value asserts]
  exact regular.get?_iff.2 asserts.1

/-! ## The list -/

/-- What `properties` asks. -/
def declaredAsks (schemas : List (String × Schema)) (place : String)
    (members : List (String × Json)) : List Ask :=
  schemas.flatMap fun entry =>
    match members.lookup entry.1, (Compile.flaggedNames schemas place).lookup entry.1 with
    | some value, _ => [.member entry.1 value (.property entry.1)]
    | none, some flag => [.missing entry.1 flag]
    | none, none => []

/-- What `patternProperties` asks. -/
def matchedAsks (compiler : Compiler) (schemas : List (String × Schema))
    (members : List (String × Json)) : List Ask :=
  members.flatMap fun member => schemas.flatMap fun entry =>
    if compiler.finds entry.1 member.1 then [.member member.1 member.2 (.pattern entry.1)] else []

/-- A name is left over for additional properties. -/
def leavesOver (compiler : Compiler) (owner : Schema) (name : String) : Bool :=
  !(Compile.namesUnder owner Builtin.properties).contains name &&
    !(Compile.namesUnder owner Builtin.patternProperties).any fun text => compiler.finds text name

/-- What `additionalProperties` asks. -/
def additionalAsks (compiler : Compiler) (owner schema : Schema) (members : List (String × Json)) :
    List Ask :=
  if schema.isAlwaysValid then []
  else members.flatMap fun member =>
    if owner.leavesOver compiler member.1 then [.member member.1 member.2 .additional] else []

/-- What one keyword of a schema asks. -/
def asksOf (compiler : Compiler) (owner : Schema) (location : String)
    (members : List (String × Json)) (entry : Keyword × KeywordValue) : List Ask :=
  match Assertion.ofKey? entry.1.key, entry.2 with
  | some .properties, .schemaMap schemas =>
    declaredAsks schemas (Place.join location [entry.1.key]) members
  | some .patternProperties, .schemaMap schemas => matchedAsks compiler schemas members
  | some .additionalProperties, .schema schema => additionalAsks compiler owner schema members
  | _, _ => []

/-- What the keywords of a schema for members ask, one keyword after the other. -/
def asks (compiler : Compiler) (owner : Schema) (location : String)
    (members : List (String × Json)) : List Ask :=
  owner.keywords.flatMap (owner.asksOf compiler location members)

variable {compiler : Compiler} {owner : Schema} {location place : String}
  {members : List (String × Json)} {schemas : List (String × Schema)} {ask : Ask}
  {name text : String} {value : Json} {source : Source}

/-! ### What is in it -/

theorem leavesOver_iff : owner.leavesOver compiler name = true ↔
    owner.Means compiler name .additional := by
  unfold leavesOver
  simp only [Bool.and_eq_true, Bool.not_eq_true', List.contains_eq_mem, decide_eq_false_iff_not,
    List.any_eq_false]
  constructor
  · rintro ⟨undeclared, unmatched⟩
    refine .additional undeclared fun text mem search ok => ?_
    rw [← Compiler.finds_of_ok ok]
    exact Bool.eq_false_iff.2 (unmatched text mem)
  · rintro ⟨⟩
    next undeclared unmatched =>
    refine ⟨undeclared, fun text mem found => ?_⟩
    obtain ⟨search, ok, matched⟩ := Compiler.finds_eq_true.1 found
    rw [unmatched text mem search ok] at matched
    cases matched

/-- The flag of a declared name is that of its schema, and the place is behind the name. -/
theorem lookup_flaggedNames {flag : String} (distinct : (Members.keys schemas).Nodup)
    {schema : Schema} (mem : (name, schema) ∈ schemas) :
    (Compile.flaggedNames schemas place).lookup name = some flag ↔
      schema.IsFlagged ∧ flag = Place.join place [name, Builtin.required.key] := by
  have own {other : Schema} (mem' : (name, other) ∈ schemas) : other = schema := by
    have here := Members.lookup_of_mem distinct mem
    rw [Members.lookup_of_mem distinct mem'] at here
    exact Option.some.inj here
  constructor
  · intro found
    obtain ⟨other, mem', flagged, same⟩ := Check.mem_flaggedNames (Members.mem_of_lookup found)
    rw [own mem'] at flagged
    exact ⟨flagged, same⟩
  · rintro ⟨flagged, rfl⟩
    obtain ⟨flag, found⟩ := Option.isSome_iff_exists.1
      ((@Check.flagged_iff _ place _).2 ⟨schema, mem, flagged⟩)
    obtain ⟨_, _, _, rfl⟩ := Check.mem_flaggedNames (Members.mem_of_lookup found)
    exact found

/-- A declared property asks for its member to be accepted if it is there, and for the member itself
if it is not there but flagged. -/
theorem mem_declaredAsks (distinct : (Members.keys schemas).Nodup)
    (distinct' : (Members.keys members).Nodup) : ask ∈ declaredAsks schemas place members ↔
      ∃ name schema, (name, schema) ∈ schemas ∧
        ((∃ value, (name, value) ∈ members ∧ ask = .member name value (.property name)) ∨
          name ∉ Members.keys members ∧ schema.IsFlagged ∧
            ask = .missing name (Place.join place [name, Builtin.required.key])) := by
  unfold declaredAsks
  rw [List.mem_flatMap]
  constructor
  · rintro ⟨⟨name, schema⟩, mem, asked⟩
    dsimp only at asked
    refine ⟨name, schema, mem, ?_⟩
    split at asked
    · next value found =>
      exact .inl ⟨value, Members.mem_of_lookup found, List.mem_singleton.1 asked⟩
    · next flag absent found =>
      obtain ⟨flagged, rfl⟩ := (lookup_flaggedNames distinct mem).1 found
      exact .inr ⟨Members.lookup_eq_none.1 absent, flagged, List.mem_singleton.1 asked⟩
    · cases asked
  · rintro ⟨name, schema, mem, ⟨value, mem', rfl⟩ | ⟨absent, flagged, rfl⟩⟩
    · refine ⟨(name, schema), mem, ?_⟩
      dsimp only
      rw [Members.lookup_of_mem distinct' mem']
      exact List.mem_singleton_self _
    · refine ⟨(name, schema), mem, ?_⟩
      dsimp only
      rw [Members.lookup_eq_none.2 absent, (lookup_flaggedNames distinct mem).2 ⟨flagged, rfl⟩]
      exact List.mem_singleton_self _

theorem mem_matchedAsks : ask ∈ matchedAsks compiler schemas members ↔
    ∃ name value text, (name, value) ∈ members ∧ text ∈ Members.keys schemas ∧
      compiler.finds text name = true ∧ ask = .member name value (.pattern text) := by
  unfold matchedAsks
  simp only [List.mem_flatMap, List.mem_ite_nil_right, List.mem_singleton, Members.keys,
    List.mem_map]
  constructor
  · rintro ⟨⟨name, value⟩, mem, ⟨text, schema⟩, listed, found, rfl⟩
    exact ⟨name, value, text, mem, ⟨(text, schema), listed, rfl⟩, found, rfl⟩
  · rintro ⟨name, value, _, mem, ⟨⟨text, schema⟩, listed, rfl⟩, found, rfl⟩
    exact ⟨(name, value), mem, (text, schema), listed, found, rfl⟩

theorem mem_additionalAsks {schema : Schema} :
    ask ∈ additionalAsks compiler owner schema members ↔ schema.isAlwaysValid = false ∧
      ∃ name value, (name, value) ∈ members ∧ owner.leavesOver compiler name = true ∧
        ask = .member name value .additional := by
  unfold additionalAsks
  cases schema.isAlwaysValid with
  | true => simp
  | false =>
    simp only [Bool.false_eq_true, if_false, List.mem_flatMap, List.mem_ite_nil_right,
      List.mem_singleton, true_and]
    constructor
    · rintro ⟨⟨name, value⟩, mem, left, rfl⟩
      exact ⟨name, value, mem, left, rfl⟩
    · rintro ⟨name, value, mem, left, rfl⟩
      exact ⟨(name, value), mem, left, rfl⟩

/-- A keyword asks for itself. -/
theorem assertion_of_mem {entry : Keyword × KeywordValue}
    (mem : ask ∈ owner.asksOf compiler location members entry) :
    Assertion.ofKey? entry.1.key = some ask.assertion := by
  unfold asksOf at mem
  split at mem
  · next known _ =>
    rw [known]
    obtain ⟨_, _, asked⟩ := List.mem_flatMap.1 mem
    split at asked
    · rw [List.mem_singleton.1 asked]
      rfl
    · rw [List.mem_singleton.1 asked]
      rfl
    · cases asked
  · next known _ =>
    obtain ⟨_, _, _, _, _, _, rfl⟩ := mem_matchedAsks.1 mem
    exact known
  · next known _ =>
    obtain ⟨_, _, _, _, _, rfl⟩ := mem_additionalAsks.1 mem
    exact known
  · cases mem

/-- What the keywords for members ask is each member under each schema that is meant for it, and the
flagged properties that are not there. -/
theorem mem_asks (regular : owner.IsRegular) (distinct : (Members.keys members).Nodup) :
    ask ∈ owner.asks compiler location members ↔ owner.Routes compiler location members ask := by
  unfold asks
  rw [List.mem_flatMap]
  constructor
  · rintro ⟨⟨keyword, value⟩, mem, asked⟩
    unfold asksOf at asked
    dsimp only at asked
    split at asked
    · next schemas known =>
      have found := regular.get?_of_asserts ⟨mem, known⟩
      rw [regular.standard _ _ _ ⟨mem, known⟩] at asked
      obtain ⟨name, schema, listed, ⟨value, mem', rfl⟩ | ⟨absent, flagged, rfl⟩⟩ :=
        (mem_declaredAsks (regular.names _ _ mem) distinct).1 asked
      · exact .member mem' (.property found listed) .property nofun
      · exact .missing (.property found listed) flagged absent
    · next schemas known =>
      obtain ⟨name, value, text, mem', stands, finds, rfl⟩ := mem_matchedAsks.1 asked
      obtain ⟨⟨_, schema⟩, listed, rfl⟩ := List.mem_map.1 stands
      obtain ⟨search, ok, matched⟩ := Compiler.finds_eq_true.1 finds
      have found := regular.get?_of_asserts ⟨mem, known⟩
      exact .member mem' (.pattern found listed) (.pattern ok matched) nofun
    · next schema known =>
      obtain ⟨asking, name, value, mem', left, rfl⟩ := mem_additionalAsks.1 asked
      have found := regular.get?_of_asserts ⟨mem, known⟩
      exact .member mem' (.additional found) (leavesOver_iff.1 left) fun _ => asking
    · cases asked
  · have properties : Assertion.ofKey? Builtin.properties.key = some .properties := by decide
    have patterns : Assertion.ofKey? Builtin.patternProperties.key = some .patternProperties := by
      decide
    have additional : Assertion.ofKey? Builtin.additionalProperties.key =
        some .additionalProperties := by decide
    rintro (⟨mem, provides, means, asking⟩ | ⟨provides, flagged, absent⟩)
    · cases provides with
      | property keyword listed =>
        refine ⟨_, regular.get?_iff.1 keyword, ?_⟩
        unfold asksOf
        rw [properties]
        exact (mem_declaredAsks (regular.names _ _ (regular.get?_iff.1 keyword)) distinct).2
          ⟨_, _, listed, .inl ⟨_, by cases means; exact mem, by cases means; rfl⟩⟩
      | pattern keyword listed =>
        refine ⟨_, regular.get?_iff.1 keyword, ?_⟩
        unfold asksOf
        rw [patterns]
        cases means with
        | pattern ok matched =>
          exact mem_matchedAsks.2 ⟨_, _, _, mem, List.mem_map_of_mem listed,
            Compiler.finds_eq_true.2 ⟨_, ok, matched⟩, rfl⟩
      | additional keyword =>
        refine ⟨_, regular.get?_iff.1 keyword, ?_⟩
        unfold asksOf
        rw [additional]
        exact mem_additionalAsks.2 ⟨asking rfl, _, _, mem, leavesOver_iff.2 means, rfl⟩
    · cases provides with
      | property keyword listed =>
        refine ⟨_, regular.get?_iff.1 keyword, ?_⟩
        unfold asksOf
        rw [properties]
        exact (mem_declaredAsks (regular.names _ _ (regular.get?_iff.1 keyword)) distinct).2
          ⟨_, _, listed, .inr ⟨absent, flagged, rfl⟩⟩

/-! ### Nothing is in it twice -/

/-- A list that is put together from lists without repetitions has none if what is in each of them
has the key of the element that it comes from, and these keys are distinct. -/
theorem nodup_flatMap_of_key {α β κ : Type} {xs : List α} {f : α → List β} (key : α → κ)
    (key' : β → κ) (distinct : (xs.map key).Nodup) (each : ∀ x ∈ xs, (f x).Nodup)
    (same : ∀ x ∈ xs, ∀ y ∈ f x, key' y = key x) : (xs.flatMap f).Nodup := by
  refine List.nodup_flatMap.2 ⟨each, ?_⟩
  have apart := List.pairwise_map.1 distinct
  refine List.Pairwise.imp_of_mem (fun {x x'} mem mem' differ => ?_) apart
  intro y here there
  exact differ ((same x mem y here).symm.trans (same x' mem' y there))

theorem nodup_declaredAsks (distinct : (Members.keys schemas).Nodup) :
    (declaredAsks schemas place members).Nodup := by
  refine nodup_flatMap_of_key (·.1) Ask.name distinct (fun entry _ => ?_) fun entry _ ask mem => ?_
  · split
    · exact List.nodup_singleton _
    · exact List.nodup_singleton _
    · exact List.nodup_nil
  · split at mem
    · rw [List.mem_singleton.1 mem]
      rfl
    · rw [List.mem_singleton.1 mem]
      rfl
    · cases mem

theorem nodup_matchedAsks (distinct : (Members.keys schemas).Nodup)
    (distinct' : (Members.keys members).Nodup) :
    (matchedAsks compiler schemas members).Nodup := by
  refine nodup_flatMap_of_key (·.1) Ask.name distinct' (fun member _ => ?_)
    fun member _ ask mem => ?_
  · refine nodup_flatMap_of_key (fun entry => Ask.member member.1 member.2 (.pattern entry.1)) id
      ?_ (fun entry _ => ?_) fun entry _ ask mem => ?_
    · have patterns : (schemas.map fun entry => Ask.member member.1 member.2 (.pattern entry.1)) =
          (Members.keys schemas).map fun text => .member member.1 member.2 (.pattern text) := by
        rw [Members.keys, List.map_map]
        rfl
      rw [patterns]
      refine distinct.map fun text text' same => ?_
      cases same
      rfl
    · split
      · exact List.nodup_singleton _
      · exact List.nodup_nil
    · exact List.mem_singleton.1 (List.mem_ite_nil_right.1 mem).2
  · obtain ⟨entry, _, asked⟩ := List.mem_flatMap.1 mem
    rw [List.mem_singleton.1 (List.mem_ite_nil_right.1 asked).2]
    rfl

theorem nodup_additionalAsks {schema : Schema} (distinct : (Members.keys members).Nodup) :
    (additionalAsks compiler owner schema members).Nodup := by
  unfold additionalAsks
  split
  · exact List.nodup_nil
  · refine nodup_flatMap_of_key (·.1) Ask.name distinct (fun member _ => ?_)
      fun member _ ask mem => ?_
    · split
      · exact List.nodup_singleton _
      · exact List.nodup_nil
    · rw [List.mem_singleton.1 (List.mem_ite_nil_right.1 mem).2]
      rfl

/-- Nothing is asked twice. -/
theorem nodup_asks (regular : owner.IsRegular) (distinct : (Members.keys members).Nodup) :
    (owner.asks compiler location members).Nodup := by
  have keys : (owner.keywords.map (·.1)).Nodup := regular.once
  refine nodup_flatMap_of_key (·.1) (fun ask => ask.assertion.keyword) keys (fun entry mem => ?_)
    fun entry mem ask asked => ?_
  · unfold asksOf
    split
    · next schemas known same =>
      rw [← Prod.mk.eta (p := entry), same] at mem
      exact nodup_declaredAsks (regular.names _ _ mem)
    · next schemas known same =>
      rw [← Prod.mk.eta (p := entry), same] at mem
      exact nodup_matchedAsks (regular.names _ _ mem) distinct
    · exact nodup_additionalAsks distinct
    · exact List.nodup_nil
  · exact (regular.standard entry.1 _ entry.2 ⟨mem, assertion_of_mem asked⟩).symm

end Schema

end JsonSchema
