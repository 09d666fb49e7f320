import JsonSchema.Proofs.Steps

/-!
# What loading makes of an object

An object is read if the schema that was made for it says just what its keywords say, with loaded
schemas for its parts (`Reads`). A schema is loaded for a part if it is the one of the truth value,
the one that the handle at the place of the part is bound to, or a reference back to this handle
(`Loaded`). All this stays true while loading goes on (`Loaded.mono`, `Built.mono`).
-/

namespace JsonSchema.Load

/-- What loading has made so far: a session, and the schemas of the nodes that were given out. -/
structure Stock where
  session : Session
  nodes : List Schema

namespace Stock

/-- The documents of the session. -/
abbrev documents (stock : Stock) : Documents :=
  stock.session.documents

/-- A schema was made, or is the one of a truth value. -/
def Made (stock : Stock) (schema : Schema) : Prop :=
  schema = .always ∨ schema = .never ∨ schema ∈ stock.nodes

/-- No error was recorded. -/
def IsClean (stock : Stock) : Prop :=
  stock.session.report.hasErrors = false

/-- What was there is there later. -/
structure Grown (stock later : Stock) : Prop where
  session : stock.session.Grown later.session
  nodes : ∀ schema ∈ stock.nodes, schema ∈ later.nodes

end Stock

/-- A schema that holds nothing but a reference to a handle. -/
def RefersBack (location : Location) (draft : Draft) (id : HandleId) (schema : Schema) : Prop :=
  ∃ node ref uri, schema = .node node (some location) draft [(Builtin.ref, .reference ref uri id)]

/-- A schema has a location at a place. -/
def HasPlace (schema : Schema) (place : String × Pointer) : Prop :=
  ∃ location, schema.location? = some location ∧ location.place = place

/-- A schema was loaded for a value at a location. -/
def Loaded (stock : Stock) (location : Location) (value : Json) (draft : Draft) (schema : Schema) :
    Prop :=
  stock.Made schema ∧
    match value with
    | .bool b => schema = .ofBool b
    | .object _ => Unambiguous stock.documents → HasPlace schema location.place ∧
      ∃ id, stock.session.StandsAt id location.place ∧
        (stock.session.graph.schema? id = some schema ∨ RefersBack location draft id schema)
    | _ => False

/-! ## Keywords -/

/-- What is known about the schemas that were loaded for parts. -/
abbrev Sub := Pointer → Json → Schema → Prop

/-- The keywords that hold one value of their own: all but limits, items and their companions. -/
def plainKeyword? (draft : Draft) (key : String) : Option Keyword :=
  (Registry.default.find? key (some draft)).filter fun keyword =>
    !(keyword.mergedInto.isSome || (keyword.variantFor draft).kind = .limit ||
      (keyword.variantFor draft).kind = .items)

/-- The members with such keywords. -/
def plainMembers (draft : Draft) (members : List (String × Json)) : List (Keyword × Json) :=
  members.filterMap fun (key, value) => (plainKeyword? draft key).map fun keyword => (keyword, value)

/-- The value of a keyword that holds no schemas. -/
def digested (keyword : Keyword) (kind : KeywordKind) (value : Json) (draft : Draft) :
    Except Fault KeywordValue :=
  if kind = .type then Digest.types keyword.key value draft
  else if keyword = Builtin.required then Digest.required keyword.key value draft
  else if kind = .stringSet then do return .stringSet (← Digest.names keyword.key value true)
  else Digest.leaf keyword.key kind value

/-- Whether a dependency is a schema and no names. -/
def isSchemaEntry (entry : String × Json) : Bool :=
  match entry.2 with
  | .object _ | .bool _ => true
  | _ => false

/-- A named schema was loaded for an entry of a map. -/
def ReadsEntry (sub : Sub) (entry : String × Json) (named : String × Schema) : Prop :=
  named.1 = entry.1 ∧ sub [entry.1] entry.2 named.2

/-- What a keyword holds says what the value of the member says. -/
def ReadsValue (sub : Sub) (keyword : Keyword) (kind : KeywordKind) (draft : Draft) (value : Json)
    (loaded : KeywordValue) : Prop :=
  match kind with
  | .schema => ∃ schema, loaded = .schema schema ∧ sub [] value schema
  | .schemaList => ∃ schemas, loaded = .schemaList schemas ∧
    List.Forall₂ (fun part schema => sub part.1 part.2 schema)
      (KeywordKind.schemaList.parts value) schemas
  | .schemaMap => ∃ entries schemas, value = .object entries ∧ loaded = .schemaMap schemas ∧
    List.Forall₂ (ReadsEntry sub) entries schemas
  | .dependencies => ∃ entries names schemas, value = .object entries ∧
    loaded = .dependencies names schemas ∧
    List.Forall₂ (fun entry needed => needed.1 = entry.1 ∧
      Digest.dependency keyword.key entry.1 entry.2 draft = .ok needed.2)
      (entries.filter (!isSchemaEntry ·)) names ∧
    List.Forall₂ (ReadsEntry sub) (entries.filter isSchemaEntry) schemas
  | _ => digested keyword kind value draft = .ok loaded

/-- What a keyword holds says what its member says, and is fit for the keyword. -/
def ReadsMember (sub : Sub) (draft : Draft) (member : Keyword × Json)
    (entry : Keyword × KeywordValue) : Prop :=
  entry.1 = member.1 ∧ SchemaBuilder.check member.1 entry.2 = .ok () ∧
    ReadsValue (fun way => sub (member.1.key :: way)) member.1 (member.1.variantFor draft).kind draft
      member.2 entry.2

/-- The keyword of a bound and its exclusive companion. -/
def limitEntries (draft : Draft) (members : List (String × Json)) (bound exclusive : Keyword) :
    List (Keyword × KeywordValue) :=
  match Digest.limit bound.key exclusive.key (members.lookup bound.key)
    (members.lookup exclusive.key) draft with
  | .ok (some limit) => [(bound, .limit limit)]
  | _ => []

/-- What is said about the items says what the value says. -/
def ReadsForm (sub : Sub) (value : Option Json) (form : ItemsForm) : Prop :=
  match value with
  | none => form = .absent
  | some (.array items) => ∃ schemas, form = .each schemas ∧
    List.Forall₂ (fun part schema => sub part.1 part.2 schema)
      (KeywordKind.items.parts (.array items)) schemas
  | some value => ∃ schema, form = .every schema ∧ sub [] value schema

/-- What is said about additional items says what the value says. -/
def ReadsAdditional (sub : Sub) (value : Option Json) (additional : Option Schema) : Prop :=
  match value with
  | none => additional = none
  | some value => ∃ schema, additional = some schema ∧ sub [] value schema

/-- The keyword of items, if the object says something about items. -/
def ReadsItems (sub : Sub) (members : List (String × Json))
    (entries : List (Keyword × KeywordValue)) : Prop :=
  let items := members.lookup Builtin.items.key
  let additional := members.lookup Builtin.additionalItems.key
  if items.isNone && additional.isNone then entries = []
  else ∃ form more, entries = [(Builtin.items, .items form more)] ∧
    ReadsForm (fun way => sub (Builtin.items.key :: way)) items form ∧
    ReadsAdditional (fun way => sub (Builtin.additionalItems.key :: way)) additional more

/-- Whether a draft has a keyword with a key. -/
def isKeyword (draft : Draft) (key : String) : Bool :=
  (Registry.default.find? key (some draft)).isSome

/-- A member of a keyword whose value has a shape that the keyword takes. -/
def IsAccepted (draft : Draft) (member : String × Json) : Prop :=
  ∃ keyword shape, Registry.default.find? member.1 (some draft) = some keyword ∧
    member.2.shape? = some shape ∧ shape ∈ (keyword.variantFor draft).expects

/-- The keywords of a schema say what the members of an object say, whose values have the shapes
that their keywords take. -/
def Reads (sub : Sub) (draft : Draft) (members : List (String × Json))
    (keywords : List (Keyword × KeywordValue)) : Prop :=
  (∀ member ∈ members, isKeyword draft member.1 = true → IsAccepted draft member) ∧
  ∃ plain items, List.Forall₂ (ReadsMember sub draft) (plainMembers draft members) plain ∧
    ReadsItems sub members items ∧
    keywords = plain ++ limitEntries draft members Builtin.minimum Builtin.exclusiveMinimum
      ++ limitEntries draft members Builtin.maximum Builtin.exclusiveMaximum ++ items

/-! ## Objects -/

/-- The parts of an object were loaded below a location. -/
def LoadedBelow (stock : Stock) (location : Location) (draft : Draft) : Sub :=
  fun way part schema => Loaded stock (location.child way) part draft schema

/-- A URI names the place of a handle. -/
def Targets (stock : Stock) (uri : String) (id : HandleId) : Prop :=
  ∃ key, Uri.normalize uri = .ok key ∧ (Unambiguous stock.documents →
    ∃ place, Names stock.documents key place ∧ stock.session.StandsAt id place)

/-- A reference is to the handle of the place that it names. -/
def Refers (stock : Stock) (location : Location) (ref : Json)
    (keywords : List (Keyword × KeywordValue)) : Prop :=
  ∃ text uri target, ref = .string text ∧ Uri.resolve location.scope text = .ok uri ∧
    keywords = [(Builtin.ref, .reference text uri target)] ∧ Targets stock uri target

/-- A schema was built for an object that loading came to at a location. -/
def Built (stock : Stock) (location : Location) (members : List (String × Json)) (draft : Draft)
    (schema : Schema) : Prop :=
  ∃ node keywords,
    schema = .node node (some (location.ofObject draft members)) draft keywords ∧
    match members.lookup Builtin.ref.key with
    | some ref => Refers stock location ref keywords
    | none => location.Names draft.idKey members ∧
      Reads (LoadedBelow stock (location.named draft.idKey members) draft) draft members keywords

/-! ## What stays -/

variable {stock later : Stock} {sub sub' : Sub} {location : Location} {value : Json}
  {draft : Draft} {schema : Schema} {members : List (String × Json)}
  {keywords : List (Keyword × KeywordValue)}

theorem Stock.Made.mono (grown : stock.Grown later) (made : stock.Made schema) :
    later.Made schema :=
  made.imp_right (Or.imp_right (grown.nodes schema))

theorem Stock.IsClean.anti (grown : stock.Grown later) (clean : later.IsClean) :
    stock.IsClean := by
  unfold Stock.IsClean LoadReport.hasErrors at clean ⊢
  rw [List.any_eq_false] at clean ⊢
  exact fun issue mem => clean issue (grown.session.issues issue mem)

theorem schema_later {session later : Session} (grown : session.Grown later) {id : HandleId}
    (bound : session.graph.schema? id = some schema) : later.graph.schema? id = some schema := by
  obtain ⟨handle, found, same⟩ := Option.bind_eq_some_iff.1 bound
  obtain ⟨handle', found', _, kept⟩ := grown.handles id handle found
  exact Option.bind_eq_some_iff.2 ⟨handle', found', kept schema same⟩

theorem Loaded.mono (grown : stock.Grown later) (loaded : Loaded stock location value draft schema) :
    Loaded later location value draft schema := by
  obtain ⟨made, what⟩ := loaded
  refine ⟨made.mono grown, ?_⟩
  cases value with
  | bool b => exact what
  | object members =>
    intro unambiguous
    obtain ⟨place, id, stands, which⟩ := what (unambiguous.anti grown.session.documents)
    exact ⟨place, id, stands.mono grown.session, which.imp_left (schema_later grown.session)⟩
  | _ => exact what.elim

theorem ReadsEntry.mono (more : ∀ way part schema, sub way part schema → sub' way part schema)
    {entry : String × Json} {named : String × Schema} (reads : ReadsEntry sub entry named) :
    ReadsEntry sub' entry named :=
  ⟨reads.1, more _ _ _ reads.2⟩

theorem ReadsValue.mono {keyword : Keyword} {kind : KeywordKind} {loaded : KeywordValue}
    (more : ∀ way part schema, sub way part schema → sub' way part schema)
    (reads : ReadsValue sub keyword kind draft value loaded) :
    ReadsValue sub' keyword kind draft value loaded := by
  unfold ReadsValue at reads ⊢
  split at reads
  · obtain ⟨schema, same, below⟩ := reads
    exact ⟨schema, same, more _ _ _ below⟩
  · obtain ⟨schemas, same, below⟩ := reads
    exact ⟨schemas, same, below.imp (fun _ _ => more _ _ _)⟩
  · obtain ⟨entries, schemas, object, same, below⟩ := reads
    exact ⟨entries, schemas, object, same, below.imp (fun _ _ => ReadsEntry.mono more)⟩
  · obtain ⟨entries, names, schemas, object, same, needed, below⟩ := reads
    exact ⟨entries, names, schemas, object, same, needed,
      below.imp (fun _ _ => ReadsEntry.mono more)⟩
  · exact reads

theorem ReadsForm.mono (more : ∀ way part schema, sub way part schema → sub' way part schema)
    {value : Option Json} {form : ItemsForm} (reads : ReadsForm sub value form) :
    ReadsForm sub' value form := by
  unfold ReadsForm at reads ⊢
  split at reads
  · exact reads
  · obtain ⟨schemas, listed, below⟩ := reads
    exact ⟨schemas, listed, below.imp (fun _ _ => more _ _ _)⟩
  · obtain ⟨schema, every, below⟩ := reads
    exact ⟨schema, every, more _ _ _ below⟩

theorem ReadsAdditional.mono (more : ∀ way part schema, sub way part schema → sub' way part schema)
    {value : Option Json} {additional : Option Schema}
    (reads : ReadsAdditional sub value additional) : ReadsAdditional sub' value additional := by
  unfold ReadsAdditional at reads ⊢
  split at reads
  · exact reads
  · obtain ⟨schema, found, below⟩ := reads
    exact ⟨schema, found, more _ _ _ below⟩

theorem readsItems_form {form : ItemsForm} {additional : Option Schema}
    (something : ((members.lookup Builtin.items.key).isNone &&
      (members.lookup Builtin.additionalItems.key).isNone) = false)
    (each : ReadsForm (fun way => sub (Builtin.items.key :: way))
      (members.lookup Builtin.items.key) form)
    (rest : ReadsAdditional (fun way => sub (Builtin.additionalItems.key :: way))
      (members.lookup Builtin.additionalItems.key) additional) :
    ReadsItems sub members [(Builtin.items, .items form additional)] := by
  unfold ReadsItems
  dsimp only
  rw [something, if_neg Bool.false_ne_true]
  exact ⟨form, additional, rfl, each, rest⟩

theorem ReadsItems.mono (more : ∀ way part schema, sub way part schema → sub' way part schema)
    (reads : ReadsItems sub members keywords) : ReadsItems sub' members keywords := by
  unfold ReadsItems at reads ⊢
  dsimp only at reads ⊢
  split
  · next nothing =>
    rw [if_pos nothing] at reads
    exact reads
  · next something =>
    rw [if_neg something] at reads
    obtain ⟨form, additional, same, each, rest⟩ := reads
    exact ⟨form, additional, same, each.mono (fun _ => more _), rest.mono (fun _ => more _)⟩

theorem Reads.mono (more : ∀ way part schema, sub way part schema → sub' way part schema)
    (reads : Reads sub draft members keywords) : Reads sub' draft members keywords := by
  obtain ⟨shaped, plain, items, each, rest, same⟩ := reads
  refine ⟨shaped, plain, items, each.imp (fun member entry read => ?_), rest.mono more, same⟩
  exact ⟨read.1, read.2.1, read.2.2.mono (fun _ _ _ => more _ _ _)⟩

theorem Targets.mono (grown : stock.Grown later) {uri : String} {id : HandleId}
    (targets : Targets stock uri id) : Targets later uri id := by
  obtain ⟨key, normal, named⟩ := targets
  refine ⟨key, normal, fun unambiguous => ?_⟩
  obtain ⟨place, names, stands⟩ := named (unambiguous.anti grown.session.documents)
  exact ⟨place, names.mono grown.session.documents, stands.mono grown.session⟩

theorem Refers.mono (grown : stock.Grown later) {ref : Json}
    (refers : Refers stock location ref keywords) : Refers later location ref keywords := by
  obtain ⟨text, uri, target, string, resolved, same, targets⟩ := refers
  exact ⟨text, uri, target, string, resolved, same, targets.mono grown⟩

theorem Built.mono (grown : stock.Grown later) (built : Built stock location members draft schema) :
    Built later location members draft schema := by
  obtain ⟨node, keywords, same, content⟩ := built
  refine ⟨node, keywords, same, ?_⟩
  split at content
  · exact content.mono grown
  · exact ⟨content.1, content.2.mono (fun _ _ _ => Loaded.mono grown)⟩

end JsonSchema.Load
