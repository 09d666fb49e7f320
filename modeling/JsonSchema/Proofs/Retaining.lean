import JsonSchema.Proofs.Building

/-!
# What a schema retains of an object

A schema retains an object (`Load.Retains`) if its keywords are those that the object has members
for, each limit and what is said about items in one keyword with its companion, and if each holds
what its member says: a schema for each part, the types that are named, the limit of the bounds, or
the value itself. Keywords that were read without errors retain their object (`Load.Reads.retains`).
-/

namespace JsonSchema

theorem Members.mem_keys {α : Type} {members : List (String × α)} {name : String} :
    name ∈ keys members ↔ ∃ value, (name, value) ∈ members := by
  simp [keys]

/-! ## Values without schemas -/

namespace Load

/-- A text names a type. In draft 3 the name `any` names all types. -/
def TextNames (draft : Draft) (text : String) (type : InstanceType) : Prop :=
  InstanceType.ofName? text = some type ∨ draft = .draft3 ∧ text = "any"

/-- A value names a type: it is the name, or a list with the name in it. -/
def NamesType (draft : Draft) (value : Json) (type : InstanceType) : Prop :=
  ∃ text, (value = .string text ∨ ∃ items, value = .array items ∧ .string text ∈ items) ∧
    TextNames draft text type

/-- A value lists names; in draft 3 it may be a single one. -/
def ListsNames (draft : Draft) (value : Json) (names : List String) : Prop :=
  value = .array (names.map .string) ∨
    draft = .draft3 ∧ ∃ name, value = .string name ∧ names = [name]

/-- The limit of a bound and its exclusive companion: since draft 6 two bounds, before that a bound
and a flag. -/
def RetainsLimit (draft : Draft) (bound exclusive : Option Json) (limit : Limit) : Prop :=
  match draft with
  | .draft6 => limit = { bound, exclusive := false, exclusiveBound := exclusive }
  | _ => ∃ flag, limit = { bound, exclusive := flag, exclusiveBound := none } ∧ bound.isSome ∧
    (flag = true ↔ exclusive = some (.bool true))

end Load

namespace Digest

open Load (TextNames NamesType ListsNames RetainsLimit make_ok)

variable {key name : String} {draft : Draft} {value : Json} {texts : List String}

theorem texts_eq {items : List Json} (found : Json.texts? items = some texts) :
    items = texts.map .string := by
  induction items generalizing texts with
  | nil =>
    cases found
    rfl
  | cons first rest ih =>
    cases first with
    | string text =>
      obtain ⟨others, named, rfl⟩ := Option.map_eq_some_iff.1 found
      rw [List.map_cons, ← ih named]
    | _ => cases found

theorem names_eq {allowEmpty : Bool} (ok : names key value allowEmpty = .ok texts) :
    value = .array (texts.map .string) := by
  obtain ⟨items, rfl, found⟩ := names_ok ok
  rw [texts_eq found]

theorem dependency_lists (ok : dependency key name value draft = .ok texts) :
    ListsNames draft value texts := by
  unfold dependency at ok
  split at ok
  · next text =>
    cases ok
    exact .inr ⟨rfl, text, rfl, rfl⟩
  · exact .inl (names_eq ok)

theorem required_eq {loaded : KeywordValue} (ok : required key value draft = .ok loaded) :
    (∃ flag, value = .bool flag ∧ loaded = .literal .boolean value) ∨
      ∃ names, value = .array (names.map .string) ∧ loaded = .stringSet names := by
  unfold required at ok
  split at ok
  · next flag =>
    cases ok
    exact .inl ⟨flag, rfl, rfl⟩
  · obtain ⟨names, listed, same⟩ := except_bind_ok ok
    cases same
    exact .inr ⟨names, names_eq listed, rfl⟩

/-! ## Types -/

/-- A value that is added names a text, whose types are added. -/
theorem mem_addType {types types' : List InstanceType}
    (ok : addType key draft types value = .ok types') (type : InstanceType) :
    type ∈ types' ↔ type ∈ types ∨ ∃ text, value = .string text ∧ TextNames draft text type := by
  have only : ∀ {text : String}, (∃ other, Json.string text = .string other ∧
      TextNames draft other type) ↔ TextNames draft text type :=
    ⟨fun ⟨_, same, names⟩ => Json.string.inj same ▸ names, fun names => ⟨_, rfl, names⟩⟩
  unfold addType at ok
  split at ok
  · next text =>
    rw [only]
    split at ok
    · next all =>
      cases ok
      obtain ⟨any, third⟩ := Bool.and_eq_true_iff.1 all
      have every : type ∈ InstanceType.all := by cases type <;> decide
      exact iff_of_true every (.inr (.inr ⟨of_decide_eq_true third, of_decide_eq_true any⟩))
    · next single =>
      have named : ∀ {found}, InstanceType.ofName? text = some found →
          (TextNames draft text type ↔ type = found) := by
        intro found ofName
        rw [TextNames, ofName]
        refine ⟨fun names => ?_, fun same => .inl (congrArg some same.symm)⟩
        rcases names with same | ⟨third, any⟩
        · exact (Option.some.inj same).symm
        · exact absurd (Bool.and_eq_true_iff.2 ⟨decide_eq_true any, decide_eq_true third⟩) single
      split at ok
      · cases ok
      · next found ofName =>
        rw [named ofName]
        split at ok
        · next twice =>
          have inside : found ∈ types := List.contains_iff_mem.1 twice
          split at ok
          · cases ok
            exact ⟨.inl, fun mem => mem.elim id (fun same => same ▸ inside)⟩
          · cases ok
        · cases ok
          rw [List.mem_append, List.mem_singleton]
  · cases ok

theorem mem_addTypes {named : List Json} {types types' : List InstanceType}
    (ok : named.foldlM (addType key draft) types = .ok types') (type : InstanceType) :
    type ∈ types' ↔ type ∈ types ∨ ∃ text, .string text ∈ named ∧ TextNames draft text type := by
  induction named generalizing types with
  | nil =>
    cases ok
    exact ⟨.inl, fun mem => mem.elim id (fun ⟨_, mem, _⟩ => absurd mem List.not_mem_nil)⟩
  | cons first rest ih =>
    rw [List.foldlM_cons] at ok
    obtain ⟨middle, added, ok⟩ := except_bind_ok ok
    rw [ih ok, mem_addType added, or_assoc]
    simp only [List.mem_cons, or_and_right, exists_or, eq_comm]

/-- The types of a value are those that it names. -/
theorem types_eq {loaded : KeywordValue}
    (shaped : value.shape? = some .array ∨ value.shape? = some .string)
    (ok : types key value draft = .ok loaded) : ∃ types, loaded = .types types ∧ types.Nodup ∧
      ∀ type, type ∈ types ↔ NamesType draft value type := by
  have rest : ∀ {named : List Json}, (if named.isEmpty && draft ≠ .draft3 then
        throw (.keywordValue key .noTypes)
      else do
        let types ← named.foldlM (addType key draft) []
        return .types (Keyword.ordered InstanceType.all types) : Except Fault KeywordValue)
        = .ok loaded → ∃ types, loaded = .types types ∧ types.Nodup ∧
          ∀ type, type ∈ types ↔ ∃ text, .string text ∈ named ∧ TextNames draft text type := by
    intro named ok
    split at ok
    · cases ok
    · obtain ⟨types, added, same⟩ := except_bind_ok ok
      cases same
      have distinct : InstanceType.all.Nodup := by decide
      refine ⟨_, rfl, distinct.filter _, fun type => ?_⟩
      have every : type ∈ InstanceType.all := by cases type <;> decide
      have all := mem_addTypes added type
      rw [Keyword.ordered, List.mem_filter, List.contains_iff_mem, all]
      exact ⟨fun mem => mem.2.resolve_left List.not_mem_nil, fun names => ⟨every, .inr names⟩⟩
  cases value with
  | string text =>
    obtain ⟨types, same, distinct, all⟩ := @rest [.string text] ok
    refine ⟨types, same, distinct, fun type => (all type).trans ?_⟩
    simp [NamesType]
  | array items =>
    obtain ⟨types, same, distinct, all⟩ := @rest items ok
    refine ⟨types, same, distinct, fun type => (all type).trans ?_⟩
    simp [NamesType]
  | _ => rcases shaped with same | same <;> cases same

/-! ## Limits -/

section Limits

variable {exclusiveKey : String} {bound exclusive : Option Json} {made : Option Limit}

theorem flaggedLimit_eq (ok : flaggedLimit key exclusiveKey bound exclusive = .ok made) :
    bound = none ∧ exclusive = none ∧ made = none ∨ bound.isSome ∧ made = some {
      bound, exclusive := (exclusive.map Json.isTruthy).getD false, exclusiveBound := none } := by
  unfold flaggedLimit at ok
  split at ok
  · cases ok
    exact .inl ⟨rfl, rfl, rfl⟩
  · cases ok
  · obtain ⟨limit, making, same⟩ := except_bind_ok ok
    cases same
    rw [make_ok making]
    exact .inr ⟨rfl, rfl⟩

theorem twoLimits_eq (ok : twoLimits bound exclusive = .ok made) :
    bound = none ∧ exclusive = none ∧ made = none ∨
      (bound.isSome || exclusive.isSome) ∧
        made = some { bound, exclusive := false, exclusiveBound := exclusive } := by
  unfold twoLimits at ok
  split at ok
  · cases ok
    exact .inl ⟨rfl, rfl, rfl⟩
  · next some =>
    obtain ⟨limit, making, same⟩ := except_bind_ok ok
    cases same
    rw [make_ok making]
    refine .inr ⟨?_, rfl⟩
    cases bound with
    | some value => rfl
    | none =>
      cases exclusive with
      | some value => rfl
      | none => exact absurd rfl (some rfl)

/-- The limit of bounds that are not null, the exclusive one a flag before draft 6: without bounds
there is none. -/
theorem limit_eq (whole : present bound = bound) (whole' : present exclusive = exclusive)
    (flags : draft ≠ .draft6 → ∀ value, exclusive = some value → ∃ flag, value = .bool flag)
    (ok : limit key exclusiveKey bound exclusive draft = .ok made) :
    bound = none ∧ exclusive = none ∧ made = none ∨ (bound.isSome || exclusive.isSome) ∧
      ∃ limit, made = some limit ∧ RetainsLimit draft bound exclusive limit := by
  unfold limit at ok
  dsimp only at ok
  rw [whole, whole'] at ok
  split at ok
  · cases ok
  · cases draft with
    | draft6 =>
      rcases twoLimits_eq ok with none | ⟨there, same⟩
      · exact .inl none
      · exact .inr ⟨there, _, same, rfl⟩
    | _ =>
      rcases flaggedLimit_eq ok with none | ⟨there, same⟩
      · exact .inl none
      · refine .inr ⟨by rw [there]; rfl, _, same, _, rfl, there, ?_⟩
        cases exclusive with
        | none => exact iff_of_false Bool.false_ne_true (by simp)
        | some value =>
          obtain ⟨flag, rfl⟩ := flags (by decide) value rfl
          cases flag with
          | true => exact iff_of_true rfl rfl
          | false => exact iff_of_false Bool.false_ne_true (by simp)

end Limits

end Digest

namespace Load

/-! ## What is retained -/

variable {sub : Sub} {draft : Draft} {members : List (String × Json)} {value : Json}
  {keywords : List (Keyword × KeywordValue)}

/-- No two members of an object have one name, nor have two of an object that is a member. -/
structure HasDistinctNames (members : List (String × Json)) : Prop where
  own : (Members.keys members).Nodup
  inner : ∀ key entries, (key, Json.object entries) ∈ members → (Members.keys entries).Nodup

/-- A schema was loaded for each element of an array, in order; an object counts as a single
element. -/
def RetainsList (sub : Sub) (value : Json) (schemas : List Schema) : Prop :=
  match value with
  | .array items => List.Forall₂
    (fun (entry : Json × Nat) schema => sub [toString entry.2] entry.1 schema) items.zipIdx schemas
  | value => ∃ schema, schemas = [schema] ∧ sub [] value schema

/-- Each name is listed with its names or with a schema that was loaded for its value, and not with
both. -/
structure RetainsDependencies (sub : Sub) (draft : Draft) (entries : List (String × Json))
    (names : List (String × List String)) (schemas : List (String × Schema)) : Prop where
  parted : ∀ name, name ∈ Members.keys entries ↔
    Xor (name ∈ Members.keys names) (name ∈ Members.keys schemas)
  names : List.Forall₂ (fun entry needed => needed.1 = entry.1 ∧
    ListsNames draft entry.2 needed.2) (entries.filter (!isSchemaEntry ·)) names
  schemas : List.Forall₂ (ReadsEntry sub) (entries.filter isSchemaEntry) schemas

/-- What a keyword of a kind holds says what the value of its member says. -/
def RetainsValue (sub : Sub) (draft : Draft) (kind : KeywordKind) (value : Json)
    (loaded : KeywordValue) : Prop :=
  match kind with
  | .schema => ∃ schema, loaded = .schema schema ∧ sub [] value schema
  | .schemaList => ∃ schemas, loaded = .schemaList schemas ∧ RetainsList sub value schemas
  | .schemaMap => ∃ entries schemas, value = .object entries ∧ loaded = .schemaMap schemas ∧
    List.Forall₂ (ReadsEntry sub) entries schemas
  | .dependencies => ∃ entries names schemas, value = .object entries ∧
    loaded = .dependencies names schemas ∧ RetainsDependencies sub draft entries names schemas
  | .type => ∃ types, loaded = .types types ∧ types.Nodup ∧
    ∀ type, type ∈ types ↔ NamesType draft value type
  | .stringSet => ∃ names, loaded = .stringSet names ∧ value = .array (names.map .string)
  | .jsonArray => ∃ items, loaded = .jsonArray items ∧ value = .array items
  | .string | .number | .boolean | .jsonValue =>
    ∃ literal, loaded = .literal literal value ∧ literal.keywordKind = kind
  | .limit | .items | .reference => False

/-- What a keyword of an object holds says what its members say: the value of its own member, or that
and what its companion says. -/
inductive RetainsEntry (sub : Sub) (draft : Draft) (members : List (String × Json)) :
    Keyword → KeywordValue → Prop
  | single {keyword : Keyword} {value : Json} {loaded : KeywordValue}
      (other : keyword ∉ lateKeywords) (found : members.lookup keyword.key = some value)
      (retains : RetainsValue (fun way => sub (keyword.key :: way)) draft
        (keyword.variantFor draft).kind value loaded) : RetainsEntry sub draft members keyword loaded
  | minimum {limit : Limit} (retains : RetainsLimit draft (members.lookup Builtin.minimum.key)
      (members.lookup Builtin.exclusiveMinimum.key) limit) :
      RetainsEntry sub draft members Builtin.minimum (.limit limit)
  | maximum {limit : Limit} (retains : RetainsLimit draft (members.lookup Builtin.maximum.key)
      (members.lookup Builtin.exclusiveMaximum.key) limit) :
      RetainsEntry sub draft members Builtin.maximum (.limit limit)
  | items {form : ItemsForm} {more : Option Schema}
      (each : ReadsForm (fun way => sub (Builtin.items.key :: way))
        (members.lookup Builtin.items.key) form)
      (rest : ReadsAdditional (fun way => sub (Builtin.additionalItems.key :: way))
        (members.lookup Builtin.additionalItems.key) more) :
      RetainsEntry sub draft members Builtin.items (.items form more)

/-- The key of a keyword, if it or its companion is a member. -/
def keyOf (members : List (String × Json)) (keyword companion : Keyword) : List String :=
  if (members.lookup keyword.key).isSome || (members.lookup companion.key).isSome then
    [keyword.key]
  else []

/-- The keys that a schema retains of an object: those of keywords of the draft in the order of the
members, and those that take another one in at the end. -/
def retainedKeys (draft : Draft) (members : List (String × Json)) : List String :=
  (Members.keys members).filter (fun key => isKeyword draft key &&
      !(lateKeywords.map Keyword.key).contains key) ++
    keyOf members Builtin.minimum Builtin.exclusiveMinimum ++
    keyOf members Builtin.maximum Builtin.exclusiveMaximum ++
    keyOf members Builtin.items Builtin.additionalItems

/-- Keywords of the draft have given keys and say what the members of an object say. -/
structure Retains (sub : Sub) (draft : Draft) (members : List (String × Json)) (keys : List String)
    (keywords : List (Keyword × KeywordValue)) : Prop where
  keys : (Members.keys keywords).map Keyword.key = keys
  entries : ∀ entry ∈ keywords,
    Registry.default.find? entry.1.key (some draft) = some entry.1 ∧
      RetainsEntry sub draft members entry.1 entry.2

theorem Retains.nil : Retains sub draft members [] [] :=
  ⟨rfl, nofun⟩

theorem Retains.append {keys keys' : List String} {more : List (Keyword × KeywordValue)}
    (first : Retains sub draft members keys keywords) (rest : Retains sub draft members keys' more) :
    Retains sub draft members (keys ++ keys') (keywords ++ more) where
  keys := by rw [Members.keys, List.map_append, List.map_append, ← first.keys, ← rest.keys]; rfl
  entries entry mem := (List.mem_append.1 mem).elim (first.entries entry) (rest.entries entry)

/-- A single entry of a keyword that is read after all members. -/
theorem Retains.late {keyword : Keyword} {loaded : KeywordValue} (late : keyword ∈ lateKeywords)
    (retains : RetainsEntry sub draft members keyword loaded) :
    Retains sub draft members [keyword.key] [(keyword, loaded)] where
  keys := rfl
  entries entry mem := by
    cases List.mem_singleton.1 mem
    exact ⟨(find_late keyword late).1, retains⟩

/-! ## Single keywords -/

/-- Of entries with distinct names, each is in one of two parts. -/
theorem mem_keys_iff_xor {entries : List (String × Json)} (distinct : (Members.keys entries).Nodup)
    (accepts : String × Json → Bool) (name : String) : name ∈ Members.keys entries ↔
      Xor (name ∈ Members.keys (entries.filter (!accepts ·)))
        (name ∈ Members.keys (entries.filter accepts)) := by
  have own : ∀ {value value'}, (name, value) ∈ entries → (name, value') ∈ entries →
      value' = value := by
    intro value value' mem mem'
    have found := Members.lookup_of_mem distinct mem
    rw [Members.lookup_of_mem distinct mem'] at found
    exact Option.some.inj found
  simp only [Members.mem_keys, List.mem_filter, Bool.not_eq_true']
  constructor
  · rintro ⟨value, mem⟩
    cases accepted : accepts (name, value) with
    | true =>
      refine .inr ⟨⟨value, mem, accepted⟩, ?_⟩
      rintro ⟨value', mem', rejected⟩
      rw [own mem mem', accepted] at rejected
      cases rejected
    | false =>
      refine .inl ⟨⟨value, mem, accepted⟩, ?_⟩
      rintro ⟨value', mem', accepted'⟩
      rw [own mem mem', accepted] at accepted'
      cases accepted'
  · rintro (⟨⟨value, mem, _⟩, _⟩ | ⟨⟨value, mem, _⟩, _⟩)
    · exact ⟨value, mem⟩
    · exact ⟨value, mem⟩

theorem keys_of_forall₂ {α β : Type} {R : String × α → String × β → Prop}
    {entries : List (String × α)} {named : List (String × β)} (each : List.Forall₂ R entries named)
    (same : ∀ {entry named}, R entry named → named.1 = entry.1) :
    Members.keys named = Members.keys entries := by
  induction each with
  | nil => rfl
  | cons first _ ih => exact congrArg₂ List.cons (same first) ih

/-- A value without schemas, which has the shape of its kind. -/
theorem retains_digested {keyword : Keyword} {kind : KeywordKind} {loaded : KeywordValue}
    (required : keyword = Builtin.required → kind = .boolean ∧ value.shape? = some .boolean ∨
      kind = .stringSet ∧ value.shape? = some .array)
    (types : kind = .type → value.shape? = some .array ∨ value.shape? = some .string)
    (arrays : kind = .jsonArray → value.shape? = some .array)
    (other : kind ≠ .schema ∧ kind ≠ .schemaList ∧ kind ≠ .schemaMap ∧ kind ≠ .dependencies)
    (ok : digested keyword kind value draft = .ok loaded) :
    RetainsValue sub draft kind value loaded := by
  unfold digested at ok
  split at ok
  · next isType =>
    subst isType
    exact Digest.types_eq (types rfl) ok
  · split at ok
    · next isRequired =>
      rcases required isRequired with ⟨rfl, shaped⟩ | ⟨rfl, shaped⟩
      · rcases Digest.required_eq ok with ⟨_, _, same⟩ | ⟨_, rfl, _⟩
        · exact ⟨.boolean, same, rfl⟩
        · cases shaped
      · rcases Digest.required_eq ok with ⟨_, rfl, _⟩ | ⟨names, same, loaded⟩
        · cases shaped
        · exact ⟨names, loaded, same⟩
    · split at ok
      · next isSet =>
        subst isSet
        obtain ⟨names, listed, same⟩ := except_bind_ok ok
        cases same
        exact ⟨names, rfl, Digest.names_eq listed⟩
      · cases kind with
        | jsonArray =>
          have array := arrays rfl
          cases value with
          | array items =>
            cases ok
            exact ⟨items, rfl, rfl⟩
          | _ => cases array
        | string | number | boolean | jsonValue =>
          cases ok
          exact ⟨_, rfl, rfl⟩
        | schema => exact absurd rfl other.1
        | schemaList => exact absurd rfl other.2.1
        | schemaMap => exact absurd rfl other.2.2.1
        | dependencies => exact absurd rfl other.2.2.2
        | type | stringSet => contradiction
        | limit | items | reference => cases ok

/-- A list of schemas has one for each element, or one for an object. -/
theorem retains_list {schemas : List Schema}
    (shaped : value.shape? = some .object ∨ value.shape? = some .array)
    (each : List.Forall₂ (fun part schema => sub part.1 part.2 schema)
      (KeywordKind.schemaList.parts value) schemas) : RetainsList sub value schemas := by
  cases value with
  | array items => exact List.forall₂_map_left_iff.1 each
  | object members =>
    obtain ⟨schema, others, first, rest, rfl⟩ := List.forall₂_cons_left_iff.1 each
    cases rest
    exact ⟨schema, rfl, first⟩
  | _ => rcases shaped with same | same <;> cases same

/-- What was read for a value says what the value says. -/
theorem ReadsValue.retains {keyword : Keyword} {shape : Shape} {loaded : KeywordValue}
    (known : keyword ∈ Builtin.all)
    (distinct : ∀ entries, value = .object entries → (Members.keys entries).Nodup)
    (shaped : value.shape? = some shape)
    (expected : shape ∈ (keyword.variantFor draft).expects)
    (reads : ReadsValue sub keyword (keyword.variantFor draft).kind draft value loaded) :
    RetainsValue sub draft (keyword.variantFor draft).kind value loaded := by
  have usual := Keyword.isUsual_of_mem known draft
  have required : keyword = Builtin.required →
      (keyword.variantFor draft).kind = .boolean ∧ value.shape? = some .boolean ∨
        (keyword.variantFor draft).kind = .stringSet ∧ value.shape? = some .array := by
    rintro rfl
    have only : ∀ shape ∈ (Builtin.required.variantFor draft).expects,
        (Builtin.required.variantFor draft).kind = .boolean ∧ shape = .boolean ∨
          (Builtin.required.variantFor draft).kind = .stringSet ∧ shape = .array := by
      cases draft <;> decide
    rw [shaped]
    exact (only shape expected).imp (And.imp_right (congrArg some)) (And.imp_right (congrArg some))
  have types : (keyword.variantFor draft).kind = .type →
      value.shape? = some .array ∨ value.shape? = some .string := by
    rw [shaped]
    exact fun kind => (usual.types kind shape expected).imp (congrArg some) (congrArg some)
  have lists : (keyword.variantFor draft).kind = .schemaList →
      value.shape? = some .object ∨ value.shape? = some .array := by
    rw [shaped]
    exact fun kind => (usual.schemas kind shape expected).imp (congrArg some) (congrArg some)
  have arrays : (keyword.variantFor draft).kind = .jsonArray → value.shape? = some .array := by
    rw [shaped]
    exact fun kind => congrArg some (usual.values kind shape expected)
  generalize (keyword.variantFor draft).kind = kind at reads required types lists arrays ⊢
  unfold ReadsValue at reads
  split at reads
  · exact reads
  · obtain ⟨schemas, same, each⟩ := reads
    exact ⟨schemas, same, retains_list (lists rfl) each⟩
  · exact reads
  · obtain ⟨entries, names, schemas, rfl, same, needed, each⟩ := reads
    refine ⟨entries, names, schemas, rfl, same, ?_,
      needed.imp (fun _ _ lists => ⟨lists.1, Digest.dependency_lists lists.2⟩), each⟩
    intro name
    rw [keys_of_forall₂ needed And.left, keys_of_forall₂ each And.left]
    exact mem_keys_iff_xor (distinct entries rfl) isSchemaEntry name
  · next noSchema noList noMap noDependencies =>
    exact retains_digested required types arrays ⟨noSchema, noList, noMap, noDependencies⟩ reads

/-! ## Keys -/

theorem isSome_plainKeyword (draft : Draft) (key : String) : (plainKeyword? draft key).isSome =
    (isKeyword draft key && !(lateKeywords.map Keyword.key).contains key) := by
  unfold plainKeyword? isKeyword
  cases found : Registry.default.find? key (some draft) with
  | none => rfl
  | some keyword =>
    obtain ⟨known, rfl⟩ := find_default found
    have all : ∀ keyword ∈ Builtin.all, ∀ draft ∈ Draft.all,
        (!(keyword.mergedInto.isSome || (keyword.variantFor draft).kind = .limit ||
          (keyword.variantFor draft).kind = .items)) =
        !(lateKeywords.map Keyword.key).contains keyword.key := by
      decide +kernel
    have mem : draft ∈ Draft.all := by cases draft <;> decide
    rw [Option.filter_some, all keyword known draft mem]
    cases (lateKeywords.map Keyword.key).contains keyword.key <;> rfl

theorem keys_plainMembers (draft : Draft) (members : List (String × Json)) :
    (plainMembers draft members).map (fun member => member.1.key) =
      (Members.keys members).filter fun key => isKeyword draft key &&
        !(lateKeywords.map Keyword.key).contains key := by
  induction members using List.reverseRecOn with
  | nil => rfl
  | append_singleton rest first ih =>
    obtain ⟨key, value⟩ := first
    rw [plainMembers_append, List.map_append, ih, Members.keys, Members.keys, List.map_append,
      List.filter_append, List.map_singleton, List.filter_singleton, ← isSome_plainKeyword]
    cases found : plainKeyword? draft key with
    | none => rfl
    | some keyword =>
      rw [← plainKeyword_key found]
      rfl

/-! ## Limits and items -/

section Late

variable (shaped : ∀ member ∈ members, isKeyword draft member.1 = true → IsAccepted draft member)

include shaped

theorem isAccepted_late {keyword : Keyword} (late : keyword ∈ lateKeywords) (value : Json)
    (found : members.lookup keyword.key = some value) : IsAccepted draft (keyword.key, value) :=
  shaped _ (Members.mem_of_lookup found) (isKeyword_late late)

/-- A keyword with one shape has values of that shape only. -/
theorem shape_late {keyword : Keyword} (late : keyword ∈ lateKeywords) {shape : Shape}
    (only : (keyword.variantFor draft).expects = [shape]) {value : Json}
    (found : members.lookup keyword.key = some value) : value.shape? = some shape := by
  obtain ⟨other, own, known, same, expected⟩ := isAccepted_late shaped late value found
  rw [(find_late keyword late).1] at known
  cases known
  rw [only] at expected
  rw [same, List.mem_singleton.1 expected]

/-- The bounds of an object make what its limit keyword holds, if there are any. -/
theorem retains_limitEntries {bound exclusive : Keyword} (late : bound ∈ lateKeywords)
    (late' : exclusive ∈ lateKeywords)
    (flag : draft ≠ .draft6 → (exclusive.variantFor draft).expects = [.boolean])
    (entry : ∀ {limit}, RetainsLimit draft (members.lookup bound.key)
      (members.lookup exclusive.key) limit → RetainsEntry sub draft members bound (.limit limit))
    (bounds : AreBounds draft members bound exclusive) :
    Retains sub draft members (keyOf members bound exclusive)
      (limitEntries draft members bound exclusive) := by
  obtain ⟨made, ok⟩ := bounds
  have flags : draft ≠ .draft6 → ∀ value, members.lookup exclusive.key = some value →
      ∃ flag, value = .bool flag := by
    intro before value found
    have boolean := shape_late shaped late' (flag before) found
    cases value with
    | bool flag => exact ⟨flag, rfl⟩
    | _ => cases boolean
  have whole := fun {keyword : Keyword} (late : keyword ∈ lateKeywords) =>
    present_late late (isAccepted_late shaped late)
  unfold keyOf limitEntries
  rw [ok]
  rcases Digest.limit_eq (whole late) (whole late') flags ok with
    ⟨none, none', rfl⟩ | ⟨there, limit, rfl, retains⟩
  · rw [none, none']
    exact .nil
  · rw [there]
    exact .late late (entry retains)

/-- The members that stand for themselves make their keywords. -/
theorem retains_plain (distinct : HasDistinctNames members)
    (each : List.Forall₂ (ReadsMember sub draft) (plainMembers draft members) keywords) :
    Retains sub draft members ((Members.keys members).filter fun key => isKeyword draft key &&
      !(lateKeywords.map Keyword.key).contains key) keywords where
  keys := by
    rw [keys_of_reads each, List.map_map, ← keys_plainMembers]
    rfl
  entries := by
    rintro ⟨keyword, loaded⟩ mem
    obtain ⟨⟨own, value⟩, listed, same, _, read⟩ := exists_of_forall₂ each.flip mem
    obtain rfl : keyword = own := same
    obtain ⟨member, plain⟩ := mem_plainMembers listed
    have found := (Option.filter_eq_some_iff.1 plain).1
    have known : isKeyword draft keyword.key = true := by
      unfold isKeyword
      rw [found]
      rfl
    obtain ⟨other, shape, found', shape', expected⟩ := shaped _ member known
    rw [found] at found'
    cases found'
    have single := isSome_plainKeyword draft keyword.key
    rw [plain, known, Bool.true_and] at single
    have inner : ∀ entries, value = .object entries → (Members.keys entries).Nodup :=
      fun entries same => distinct.inner keyword.key entries (same ▸ member)
    refine ⟨found, .single (fun late => ?_) (Members.lookup_of_mem distinct.own member)
      (read.retains (find_default found).1 inner shape' expected)⟩
    rw [List.contains_iff_mem.2 (List.mem_map_of_mem late)] at single
    cases single

end Late

/-- What is said about items makes their keyword, if something is. -/
theorem ReadsItems.retains (reads : ReadsItems sub members keywords) :
    Retains sub draft members (keyOf members Builtin.items Builtin.additionalItems) keywords := by
  unfold ReadsItems at reads
  unfold keyOf
  dsimp only at reads
  split at reads
  · next nothing =>
    rw [isNone_and_isNone, Bool.not_eq_true'] at nothing
    rw [reads, nothing]
    exact .nil
  · next something =>
    rw [isNone_and_isNone, Bool.not_eq_true', Bool.not_eq_false] at something
    obtain ⟨form, more, rfl, each, rest⟩ := reads
    rw [something]
    exact .late (by decide) (.items each rest)

/-- Keywords that were read without errors retain the members of their object. -/
theorem Reads.retains (distinct : HasDistinctNames members)
    (reads : Reads sub draft members keywords)
    (lower : AreBounds draft members Builtin.minimum Builtin.exclusiveMinimum)
    (upper : AreBounds draft members Builtin.maximum Builtin.exclusiveMaximum) :
    Retains sub draft members (retainedKeys draft members) keywords := by
  obtain ⟨shaped, plain, items, each, rest, rfl⟩ := reads
  have flags : draft ≠ .draft6 →
      (Builtin.exclusiveMinimum.variantFor draft).expects = [.boolean] ∧
        (Builtin.exclusiveMaximum.variantFor draft).expects = [.boolean] := by
    cases draft <;> decide
  refine (((retains_plain shaped distinct each).append ?_).append ?_).append rest.retains
  · exact retains_limitEntries shaped (by decide) (by decide) (fun before => (flags before).1)
      .minimum lower
  · exact retains_limitEntries shaped (by decide) (by decide) (fun before => (flags before).2)
      .maximum upper

end Load

end JsonSchema
