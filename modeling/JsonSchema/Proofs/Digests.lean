import JsonSchema.Proofs.Matching
import JsonSchema.Proofs.Twins

/-!
# Reading equal values

What is digested from equal values agrees (`Digest.types_agree`, `Load.digested_agrees`,
`Load.limitEntries_agree`). So the keywords that are read from equal objects agree, in whatever
order they come, if the schemas that were loaded for equal parts are related (`Load.Reads.agrees`).
-/

namespace JsonSchema

/-! ## Equal values -/

namespace Json.Agrees

variable {v w : Json}

theorem isTruthy_eq (agrees : v.Agrees w) : v.isTruthy = w.isTruthy := by
  rcases agrees.cases with ⟨_, _, rfl, rfl, each⟩ | ⟨_, _, rfl, rfl, matched⟩ |
    ⟨_, _, rfl, rfl, same⟩ | ⟨rfl, -⟩
  · exact congrArg (!·) (Matched.of_forall₂ each).isEmpty_eq
  · exact congrArg (!·) matched.isEmpty_eq
  · exact congrArg (!·) (Number.equals_congr_left same _)
  · rfl

theorem isNumber_eq (agrees : v.Agrees w) : v.isNumber = w.isNumber := by
  rcases agrees.cases with ⟨_, _, rfl, rfl, -⟩ | ⟨_, _, rfl, rfl, -⟩ | ⟨_, _, rfl, rfl, -⟩ | ⟨rfl, -⟩
  all_goals rfl

theorem isSchemaEntry_eq (agrees : v.Agrees w) (name name' : String) :
    Load.isSchemaEntry (name, v) = Load.isSchemaEntry (name', w) := by
  rcases agrees.cases with ⟨_, _, rfl, rfl, -⟩ | ⟨_, _, rfl, rfl, -⟩ | ⟨_, _, rfl, rfl, -⟩ | ⟨rfl, -⟩
  all_goals rfl

end Json.Agrees

/-! ## Digests -/

namespace Digest

variable {v w : Json} {items items' : List Json} {key key' name name' : String} {draft : Draft}
  {texts texts' : List String}

theorem texts_agree (each : List.Forall₂ Json.Agrees items items')
    (found : Json.texts? items = some texts) : Json.texts? items' = some texts := by
  induction each generalizing texts with
  | nil => exact found
  | @cons v w _ _ first _ ih =>
    cases v with
    | string text =>
      rw [first.string]
      obtain ⟨rest, others, same⟩ := Option.map_eq_some_iff.1 found
      exact Option.map_eq_some_iff.2 ⟨rest, ih others, same⟩
    | _ => cases found

theorem names_agree {allowEmpty allowEmpty' : Bool} (agrees : v.Agrees w)
    (ok : names key v allowEmpty = .ok texts) (ok' : names key' w allowEmpty' = .ok texts') :
    texts = texts' := by
  obtain ⟨items, rfl, found⟩ := names_ok ok
  obtain ⟨items', rfl, found'⟩ := names_ok ok'
  obtain ⟨_, ⟨⟩, each⟩ := agrees.array
  rw [texts_agree each found] at found'
  exact Option.some.inj found'

theorem dependency_agree (agrees : v.Agrees w) (ok : dependency key name v draft = .ok texts)
    (ok' : dependency key' name' w draft = .ok texts') : texts = texts' := by
  unfold dependency at ok
  split at ok
  · rw [agrees.string] at ok'
    cases ok
    cases ok'
    rfl
  · next single =>
    obtain ⟨items, rfl, _⟩ := names_ok ok
    obtain ⟨items', rfl, _⟩ := agrees.array
    exact names_agree agrees ok ok'

theorem addType_agree {types types' : List InstanceType} (agrees : v.Agrees w)
    (ok : addType key draft types v = .ok types') : addType key draft types w = .ok types' := by
  cases v with
  | string text =>
    rw [agrees.string]
    exact ok
  | _ => cases ok

theorem addTypes_agree {types types' : List InstanceType}
    (each : List.Forall₂ Json.Agrees items items')
    (ok : items.foldlM (addType key draft) types = .ok types') :
    items'.foldlM (addType key draft) types = .ok types' := by
  induction each generalizing types with
  | nil => exact ok
  | cons first _ ih =>
    rw [List.foldlM_cons] at ok ⊢
    obtain ⟨next, added, ok⟩ := except_bind_ok ok
    rw [addType_agree first added]
    exact ih ok

/-- What is named by equal values that are texts or lists is the same. -/
theorem types_agree {loaded : KeywordValue} (agrees : v.Agrees w)
    (shaped : v.shape? = some .array ∨ v.shape? = some .string)
    (ok : types key v draft = .ok loaded) : types key w draft = .ok loaded := by
  cases v with
  | string text =>
    rw [agrees.string]
    exact ok
  | array items =>
    obtain ⟨items', rfl, each⟩ := agrees.array
    have empty := (Matched.of_forall₂ each).isEmpty_eq
    unfold types at ok ⊢
    change (if items.isEmpty && draft ≠ .draft3 then _ else _) = _ at ok
    change (if items'.isEmpty && draft ≠ .draft3 then _ else _) = _
    rw [← empty]
    split at ok
    · cases ok
    · next filled =>
      rw [if_neg filled]
      obtain ⟨types, added, ok⟩ := except_bind_ok ok
      exact (congrArg (· >>= _) (addTypes_agree each added)).trans ok
  | _ => rcases shaped with same | same <;> cases same

end Digest

namespace Load

variable {rel : Schema → Schema → Prop} {sub sub' : Sub} {draft : Draft} {v w : Json}

/-- Keywords for texts and flags take no arrays and no objects. -/
theorem checkPlain_of_kind {keyword : Keyword} {shape : Shape} (known : keyword ∈ Builtin.all)
    (shaped : v.shape? = some shape) (expected : shape ∈ (keyword.variantFor draft).expects)
    (kind : (keyword.variantFor draft).kind = .string ∨ (keyword.variantFor draft).kind = .boolean) :
    v.checkPlain = .ok () := by
  have all : ∀ keyword ∈ Builtin.all, ∀ draft ∈ Draft.all,
      (keyword.variantFor draft).kind = .string ∨ (keyword.variantFor draft).kind = .boolean →
        ∀ shape ∈ (keyword.variantFor draft).expects, shape ≠ .array ∧ shape ≠ .object := by
    decide +kernel
  have mem : draft ∈ Draft.all := by cases draft <;> decide
  obtain ⟨noArray, noObject⟩ := all keyword known draft mem kind shape expected
  cases v with
  | array items =>
    cases shaped
    exact absurd rfl noArray
  | object members =>
    cases shaped
    exact absurd rfl noObject
  | _ => rfl

theorem required_agrees {key : String} {loaded loaded' : KeywordValue} (agrees : v.Agrees w)
    (ok : Digest.required key v draft = .ok loaded)
    (ok' : Digest.required key w draft = .ok loaded') : loaded.Agrees rel loaded' := by
  unfold Digest.required at ok
  split at ok
  · next b =>
    obtain rfl : w = .bool b := by
      rcases agrees.cases with ⟨_, _, ⟨⟩, -⟩ | ⟨_, _, ⟨⟩, -⟩ | ⟨_, _, ⟨⟩, -⟩ | ⟨rfl, -⟩
      rfl
    cases ok
    cases ok'
    exact ⟨rfl, agrees, fun _ => rfl⟩
  · obtain ⟨names, here, same⟩ := except_bind_ok ok
    obtain ⟨items, rfl, _⟩ := Digest.names_ok here
    obtain ⟨items', rfl, _⟩ := agrees.array
    obtain ⟨names', there, same'⟩ := except_bind_ok ok'
    cases same
    cases same'
    exact Digest.names_agree agrees here there

/-- What is digested from equal values agrees. -/
theorem digested_agrees {keyword : Keyword} {shape : Shape} {loaded loaded' : KeywordValue}
    (known : keyword ∈ Builtin.all) (shaped : v.shape? = some shape)
    (expected : shape ∈ (keyword.variantFor draft).expects) (agrees : v.Agrees w)
    (ok : digested keyword (keyword.variantFor draft).kind v draft = .ok loaded)
    (ok' : digested keyword (keyword.variantFor draft).kind w draft = .ok loaded') :
    loaded.Agrees rel loaded' := by
  have usual := Keyword.isUsual_of_mem known draft
  have plain := checkPlain_of_kind known shaped expected
  have types := fun kind => usual.types kind shape expected
  have values := fun kind => usual.values kind shape expected
  generalize (keyword.variantFor draft).kind = kind at ok ok' plain types values
  unfold digested at ok ok'
  split at ok
  · next named =>
    rw [if_pos named] at ok'
    have shapes : v.shape? = some .array ∨ v.shape? = some .string := by
      rw [shaped]
      exact (types named).imp (congrArg some) (congrArg some)
    rw [Digest.types_agree agrees shapes ok] at ok'
    cases ok'
    obtain ⟨types, rfl⟩ := types_ok ok
    exact rfl
  · next other =>
    rw [if_neg other] at ok'
    split at ok
    · next required =>
      rw [if_pos required] at ok'
      exact required_agrees agrees ok ok'
    · next other =>
      rw [if_neg other] at ok'
      split at ok
      · next listed =>
        rw [if_pos listed] at ok'
        obtain ⟨names, here, ok⟩ := except_bind_ok ok
        obtain ⟨names', there, ok'⟩ := except_bind_ok ok'
        cases ok
        cases ok'
        exact Digest.names_agree agrees here there
      · next other =>
        rw [if_neg other] at ok'
        cases kind
        case string | boolean =>
          cases ok
          cases ok'
          exact ⟨rfl, agrees, fun _ => plain (by simp)⟩
        case number | jsonValue =>
          cases ok
          cases ok'
          exact ⟨rfl, agrees, by simp⟩
        case jsonArray =>
          rw [values rfl] at shaped
          cases v with
          | array items =>
            obtain ⟨items', rfl, each⟩ := agrees.array
            cases ok
            cases ok'
            exact each
          | _ => cases shaped
        all_goals cases ok

/-! ## Parts -/

/-- Schemas that were loaded for equal parts are related. -/
def Joins (rel : Schema → Schema → Prop) (sub sub' : Sub) : Prop :=
  ∀ way way' part part' schema schema', sub way part schema → sub' way' part' schema' →
    part.Agrees part' → rel schema schema'

section Values

variable (joins : Joins rel sub sub')

include joins

theorem Joins.list {parts parts' : List (Pointer × Json)} {schemas schemas' : List Schema}
    (same : List.Forall₂ (fun part part' => part.2.Agrees part'.2) parts parts')
    (loaded : List.Forall₂ (fun part schema => sub part.1 part.2 schema) parts schemas)
    (loaded' : List.Forall₂ (fun part schema => sub' part.1 part.2 schema) parts' schemas') :
    List.Forall₂ rel schemas schemas' := by
  induction same generalizing schemas schemas' with
  | nil =>
    cases loaded
    cases loaded'
    exact .nil
  | cons agrees _ ih =>
    cases loaded with
    | cons here rest =>
      cases loaded' with
      | cons there rest' => exact .cons (joins _ _ _ _ _ _ here there agrees) (ih rest rest')

omit joins in
/-- Equal values have equal parts. -/
theorem parts_agree {kind : KeywordKind} (known : kind = .schemaList ∨ kind = .items)
    (agrees : v.Agrees w) : List.Forall₂ (fun part part' => part.2.Agrees part'.2)
      (kind.parts v) (kind.parts w) := by
  rcases agrees.cases with ⟨items, items', rfl, rfl, each⟩ | ⟨_, _, rfl, rfl, -⟩ |
    ⟨_, _, rfl, rfl, -⟩ | ⟨rfl, plain⟩
  · have parts : List.Forall₂ (fun part part' => part.2.Agrees part'.2)
        (items.zipIdx.map fun entry => ([toString entry.2], entry.1))
        (items'.zipIdx.map fun entry => ([toString entry.2], entry.1)) := by
      rw [List.forall₂_map_left_iff, List.forall₂_map_right_iff]
      exact (forall₂_zipIdx each 0).imp fun _ _ both => both.2
    rcases known with rfl | rfl <;> exact parts
  · rcases known with rfl | rfl <;> exact .cons agrees .nil
  · rcases known with rfl | rfl <;> exact .cons agrees .nil
  · cases v with
    | array => cases plain
    | _ => rcases known with rfl | rfl <;> exact .cons agrees .nil

theorem Joins.map {entries entries' : List (String × Json)}
    {schemas schemas' : List (String × Schema)} (distinct : (Members.keys entries).Nodup)
    (matched : Matched (Members.Paired Json.Agrees) entries entries')
    (loaded : List.Forall₂ (ReadsEntry sub) entries schemas)
    (loaded' : List.Forall₂ (ReadsEntry sub') entries' schemas') :
    MapsAgree rel schemas schemas' where
  distinct := by
    have paired : List.Forall₂ (Members.Paired fun _ _ => True) entries schemas :=
      loaded.imp fun _ _ read => ⟨read.1.symm, trivial⟩
    rwa [← Members.keys_of_paired paired]
  matched := matched.through loaded loaded' fun _ _ _ _ same read read' =>
    ⟨read.1.trans (same.1.trans read'.1.symm), joins _ _ _ _ _ _ read.2 read'.2 same.2⟩

/-- Dependencies that were read from equal entries agree. -/
theorem Joins.dependencies {key : String} {entries entries' : List (String × Json)}
    {names names' : List (String × List String)} {schemas schemas' : List (String × Schema)}
    (distinct : (Members.keys entries).Nodup)
    (matched : Matched (Members.Paired Json.Agrees) entries entries')
    (needed : List.Forall₂ (fun entry needed => needed.1 = entry.1 ∧
      Digest.dependency key entry.1 entry.2 draft = .ok needed.2)
      (entries.filter (!isSchemaEntry ·)) names)
    (needed' : List.Forall₂ (fun entry needed => needed.1 = entry.1 ∧
      Digest.dependency key entry.1 entry.2 draft = .ok needed.2)
      (entries'.filter (!isSchemaEntry ·)) names')
    (below : List.Forall₂ (ReadsEntry sub) (entries.filter isSchemaEntry) schemas)
    (below' : List.Forall₂ (ReadsEntry sub') (entries'.filter isSchemaEntry) schemas') :
    (KeywordValue.dependencies names schemas).Agrees rel (.dependencies names' schemas') := by
  have some : ∀ p : String × Json → Bool, (Members.keys (entries.filter p)).Nodup :=
    fun p => distinct.sublist ((List.filter_sublist).map _)
  have sort : ∀ entry entry' : String × Json, Members.Paired Json.Agrees entry entry' →
      isSchemaEntry entry = isSchemaEntry entry' :=
    fun _ _ same => same.2.isSchemaEntry_eq _ _
  refine ⟨?_, ?_, joins.map (some _) (matched.filter sort) below below'⟩
  · have paired : List.Forall₂ (Members.Paired fun _ _ => True)
        (entries.filter (!isSchemaEntry ·)) names :=
      needed.imp fun _ _ read => ⟨read.1.symm, trivial⟩
    rw [← Members.keys_of_paired paired]
    exact some _
  · have rest := matched.filter (p := (!isSchemaEntry ·)) (q := (!isSchemaEntry ·))
      fun entry entry' same => congrArg (!·) (sort entry entry' same)
    have equal : Matched (· = ·) names names' := rest.through needed needed'
      fun _ _ _ _ same read read' => Prod.ext (read.1.trans (same.1.trans read'.1.symm))
        (Digest.dependency_agree same.2 read.2 read'.2)
    simpa using equal.perm_map (f := id) (g := id) fun _ _ same => same

/-- What was read from equal values agrees. -/
theorem ReadsValue.agrees {keyword : Keyword} {shape : Shape} {loaded loaded' : KeywordValue}
    (known : keyword ∈ Builtin.all) (shaped : v.shape? = some shape)
    (expected : shape ∈ (keyword.variantFor draft).expects) (agrees : v.Agrees w)
    (reads : ReadsValue sub keyword (keyword.variantFor draft).kind draft v loaded)
    (reads' : ReadsValue sub' keyword (keyword.variantFor draft).kind draft w loaded') :
    loaded.Agrees rel loaded' := by
  have digested := @digested_agrees rel draft v w keyword shape loaded loaded' known shaped expected
    agrees
  generalize (keyword.variantFor draft).kind = kind at *
  unfold ReadsValue at reads reads'
  split at reads
  · obtain ⟨schema, rfl, below⟩ := reads
    obtain ⟨schema', rfl, below'⟩ := reads'
    exact joins _ _ _ _ _ _ below below' agrees
  · obtain ⟨schemas, rfl, below⟩ := reads
    obtain ⟨schemas', rfl, below'⟩ := reads'
    exact joins.list (parts_agree (.inl rfl) agrees) below below'
  · obtain ⟨entries, schemas, rfl, rfl, below⟩ := reads
    obtain ⟨entries', schemas', rfl, rfl, below'⟩ := reads'
    obtain ⟨_, ⟨⟩, matched⟩ := agrees.object
    exact joins.map agrees.proper.1 matched below below'
  · obtain ⟨entries, names, schemas, rfl, rfl, needed, below⟩ := reads
    obtain ⟨entries', names', schemas', rfl, rfl, needed', below'⟩ := reads'
    obtain ⟨_, ⟨⟩, matched⟩ := agrees.object
    exact joins.dependencies agrees.proper.1 matched needed needed' below below'
  · split at reads'
    all_goals first
      | contradiction
      | exact digested reads reads'

end Values

/-! ## Limits -/

/-- A limit that is digested, if there is one. -/
def limit? (key exclusiveKey : String) (bound exclusive : Option Json) (draft : Draft) :
    Option Limit :=
  match Digest.limit key exclusiveKey bound exclusive draft with
  | .ok limit => limit
  | .error _ => none

theorem present_agrees {value value' : Option Json} (agrees : Option.Rel Json.Agrees value value') :
    Option.Rel Json.Agrees (Digest.present value) (Digest.present value') := by
  cases agrees with
  | none => exact .none
  | @some v w agrees =>
    rcases agrees.cases with ⟨_, _, rfl, rfl, -⟩ | ⟨_, _, rfl, rfl, -⟩ | ⟨_, _, rfl, rfl, -⟩ |
      ⟨rfl, -⟩
    · exact .some agrees
    · exact .some agrees
    · exact .some agrees
    · cases v with
      | null => exact .none
      | _ => exact .some agrees

theorem limit_agrees {key exclusiveKey : String} {bound bound' exclusive exclusive' : Option Json}
    (bounds : Option.Rel Json.Agrees bound bound')
    (others : Option.Rel Json.Agrees exclusive exclusive') :
    Option.Rel Limit.Agrees (limit? key exclusiveKey bound exclusive draft)
      (limit? key exclusiveKey bound' exclusive' draft) := by
  have bounds := present_agrees bounds
  have others := present_agrees others
  unfold limit? Digest.limit
  dsimp only
  generalize Digest.present bound = b, Digest.present bound' = b', Digest.present exclusive = e,
    Digest.present exclusive' = e' at bounds others ⊢
  cases bounds with
  | none =>
    cases others with
    | none => cases draft <;> exact .none
    | some here =>
      cases draft
      case draft6 => exact .some ⟨.none, rfl, .some here⟩
      all_goals exact .none
  | @some v w agrees =>
    rw [Option.filter_some, Option.filter_some, agrees.isNumber_eq]
    cases w.isNumber with
    | false => exact .none
    | true =>
      cases others with
      | none => cases draft <;> exact .some ⟨.some agrees, rfl, .none⟩
      | some here =>
        cases draft
        case draft6 => exact .some ⟨.some agrees, rfl, .some here⟩
        all_goals
          have flag := here.isTruthy_eq
          simp only [Digest.flaggedLimit, Option.map_some, Option.getD_some, flag, Limit.make,
            Option.isNone_some, Bool.false_and, Bool.and_false]
          exact .some ⟨.some agrees, rfl, .none⟩

theorem limitEntries_eq_limit (members : List (String × Json)) (bound exclusive : Keyword) :
    limitEntries draft members bound exclusive =
      ((limit? bound.key exclusive.key (members.lookup bound.key) (members.lookup exclusive.key)
        draft).map fun limit => (bound, KeywordValue.limit limit)).toList := by
  unfold limitEntries limit?
  generalize Digest.limit .. = found
  match found with
  | .ok (some limit) => rfl
  | .ok none => rfl
  | .error fault => rfl

/-! ## Objects -/

theorem ReadsForm.agrees {form form' : ItemsForm} (joins : Joins rel sub sub') (agrees : v.Agrees w)
    (reads : ReadsForm sub (some v) form) (reads' : ReadsForm sub' (some w) form') :
    form.Alike rel form' := by
  by_cases listed : ∃ items, v = .array items
  · obtain ⟨items, rfl⟩ := listed
    have parts := parts_agree (.inr rfl) agrees
    obtain ⟨items', rfl, _⟩ := agrees.array
    obtain ⟨schemas, rfl, below⟩ := reads
    obtain ⟨schemas', rfl, below'⟩ := reads'
    exact joins.list parts below below'
  · have single : ∀ items, v ≠ .array items := fun items same => listed ⟨items, same⟩
    have single' : ∀ items, w ≠ .array items := by
      rintro items rfl
      rcases agrees.cases with ⟨xs, _, rfl, -⟩ | ⟨_, _, -, ⟨⟩, -⟩ | ⟨_, _, -, ⟨⟩, -⟩ | ⟨rfl, -⟩
      · exact single xs rfl
      · exact single items rfl
    obtain ⟨schema, rfl, below⟩ := reads.single single
    obtain ⟨schema', rfl, below'⟩ := reads'.single single'
    exact joins _ _ _ _ _ _ below below' agrees

theorem ReadsAdditional.agrees {value value' : Option Json} {additional additional' : Option Schema}
    (joins : Joins rel sub sub') (same : Option.Rel Json.Agrees value value')
    (reads : ReadsAdditional sub value additional)
    (reads' : ReadsAdditional sub' value' additional') : Option.Rel rel additional additional' := by
  cases same with
  | none =>
    obtain rfl : additional = none := reads
    obtain rfl : additional' = none := reads'
    exact .none
  | some agrees =>
    obtain ⟨schema, rfl, below⟩ := reads
    obtain ⟨schema', rfl, below'⟩ := reads'
    exact .some (joins _ _ _ _ _ _ below below' agrees)

section Objects

variable {members members' : List (String × Json)} {keywords keywords' : List (Keyword × KeywordValue)}
  (same : (Json.object members).Agrees (.object members'))

include same

/-- Limits that are digested from equal objects agree. -/
theorem limitEntries_agree (bound exclusive : Keyword) :
    List.Forall₂ (Members.Paired (KeywordValue.Agrees rel))
      (limitEntries draft members bound exclusive)
      (limitEntries draft members' bound exclusive) := by
  have listed : ∀ {limit limit' : Option Limit}, Option.Rel Limit.Agrees limit limit' →
      List.Forall₂ (Members.Paired (KeywordValue.Agrees rel))
        (limit.map fun limit => (bound, KeywordValue.limit limit)).toList
        (limit'.map fun limit => (bound, KeywordValue.limit limit)).toList := by
    intro limit limit' related
    cases related with
    | none => exact .nil
    | some limits => exact .cons ⟨rfl, limits⟩ .nil
  rw [limitEntries_eq_limit, limitEntries_eq_limit]
  exact listed (limit_agrees (same.lookup bound.key) (same.lookup exclusive.key))

theorem ReadsItems.agrees (joins : Joins rel sub sub') (reads : ReadsItems sub members keywords)
    (reads' : ReadsItems sub' members' keywords') :
    List.Forall₂ (Members.Paired (KeywordValue.Agrees rel)) keywords keywords' := by
  have each := same.lookup Builtin.items.key
  have rest := same.lookup Builtin.additionalItems.key
  unfold ReadsItems at reads reads'
  dsimp only at reads reads'
  generalize members.lookup Builtin.items.key = value, members'.lookup Builtin.items.key = value'
    at each reads reads'
  generalize members.lookup Builtin.additionalItems.key = more,
    members'.lookup Builtin.additionalItems.key = more' at rest reads reads'
  have absent : (value.isNone && more.isNone) = (value'.isNone && more'.isNone) := by
    cases each <;> cases rest <;> rfl
  rw [← absent] at reads'
  split at reads
  · next nothing =>
    rw [if_pos nothing] at reads'
    rw [reads, reads']
    exact .nil
  · next something =>
    rw [if_neg something] at reads'
    obtain ⟨form, additional, rfl, formed, added⟩ := reads
    obtain ⟨form', additional', rfl, formed', added'⟩ := reads'
    refine .cons ⟨rfl, ?_, added.agrees (fun _ _ => joins _ _) rest added'⟩ .nil
    cases each with
    | none =>
      obtain rfl : form = .absent := formed
      obtain rfl : form' = .absent := formed'
      trivial
    | some agrees => exact formed.agrees (fun _ _ => joins _ _) agrees formed'

/-- What was read from equal members agrees, keyword by keyword. -/
theorem plain_agrees (joins : Joins rel sub sub') {plain plain' : List (Keyword × KeywordValue)}
    (accepted : ∀ member ∈ members, isKeyword draft member.1 = true → IsAccepted draft member)
    (each : List.Forall₂ (ReadsMember sub draft) (plainMembers draft members) plain)
    (each' : List.Forall₂ (ReadsMember sub' draft) (plainMembers draft members') plain') :
    Matched (Members.Paired (KeywordValue.Agrees rel)) plain plain' := by
  obtain ⟨_, ⟨⟩, matched⟩ := same.object
  have listed : Matched (Members.Paired Json.Agrees) (plainMembers draft members)
      (plainMembers draft members') := by
    refine matched.filterMap ?_
    rintro ⟨key, v⟩ ⟨_, w⟩ ⟨⟨⟩, agrees⟩
    dsimp only at agrees ⊢
    cases plainKeyword? draft key with
    | none => exact .none
    | some keyword => exact .some ⟨rfl, agrees⟩
  have inside := (List.forall₂_and_left _ _).2 ⟨fun _ mem => mem, each⟩
  refine listed.through inside each' ?_
  rintro ⟨keyword, v⟩ ⟨_, w⟩ ⟨_, loaded⟩ ⟨_, loaded'⟩ ⟨⟨⟩, agrees⟩ ⟨mem, ⟨⟩, _, read⟩ ⟨⟨⟩, _, read'⟩
  obtain ⟨member, plain⟩ := mem_plainMembers mem
  have found := (Option.filter_eq_some_iff.1 plain).1
  obtain ⟨_, shape, found', shaped, expected⟩ := accepted _ member
    (show isKeyword draft keyword.key = true by rw [isKeyword, found]; rfl)
  rw [found] at found'
  cases found'
  exact ⟨rfl, ReadsValue.agrees (fun _ _ => joins _ _) (find_default found).1 shaped expected agrees
    read read'⟩

/-- What was read from equal objects agrees, if the schemas that were loaded for equal parts are
related. -/
theorem Reads.agrees (joins : Joins rel sub sub') (reads : Reads sub draft members keywords)
    (reads' : Reads sub' draft members' keywords') :
    Matched (Members.Paired (KeywordValue.Agrees rel)) keywords keywords' := by
  obtain ⟨accepted, plain, items, each, rest, rfl⟩ := reads
  obtain ⟨_, plain', items', each', rest', rfl⟩ := reads'
  refine .append (.append (.append (plain_agrees same joins accepted each each') ?_) ?_) ?_
  · exact .of_forall₂ (limitEntries_agree same _ _)
  · exact .of_forall₂ (limitEntries_agree same _ _)
  · exact .of_forall₂ (rest.agrees same joins rest')

end Objects

end Load

end JsonSchema
