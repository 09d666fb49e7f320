import JsonSchema.Proofs.Agreement
import JsonSchema.Proofs.Alike

/-!
# Twins

Two schemas are twins if they are equal and have the same hash (`Schema.IsTwin`). Keyword values agree
if they hold equal plain values, and related schemas at the same positions or under the same names
(`KeywordValue.Agrees`). So schemas whose keywords agree, with twins in them, are twins
(`Schema.IsTwin.of_keywords`).

Comparing looks at identities only to end early. Agreement does not look at them at all, so it stays
when the nodes get other identities (`Schema.relabel`, `KeywordValue.Agrees.relabel`).
-/

namespace JsonSchema

/-! ## Agreement -/

/-- Two limits have equal bounds and the same flag. -/
structure Limit.Agrees (limit limit' : Limit) : Prop where
  bound : Option.Rel Json.Agrees limit.bound limit'.bound
  exclusive : limit.exclusive = limit'.exclusive
  exclusiveBound : Option.Rel Json.Agrees limit.exclusiveBound limit'.exclusiveBound

/-- Two maps have related schemas under the same names. -/
structure MapsAgree (rel : Schema → Schema → Prop) (schemas schemas' : List (String × Schema)) :
    Prop where
  distinct : (Members.keys schemas).Nodup
  matched : Matched (Members.Paired rel) schemas schemas'

/-- Two keyword values hold related schemas and otherwise equal values. -/
def KeywordValue.Agrees (rel : Schema → Schema → Prop) : KeywordValue → KeywordValue → Prop
  | .literal kind value, .literal kind' value' => kind = kind' ∧ value.Agrees value' ∧
    (kind = .string ∨ kind = .boolean → value.checkPlain = .ok ())
  | .stringSet names, .stringSet names' => names = names'
  | .jsonArray values, .jsonArray values' => List.Forall₂ Json.Agrees values values'
  | .schema inner, .schema inner' => rel inner inner'
  | .schemaList schemas, .schemaList schemas' => List.Forall₂ rel schemas schemas'
  | .schemaMap schemas, .schemaMap schemas' => MapsAgree rel schemas schemas'
  | .types listed, .types listed' => listed = listed'
  | .limit bounds, .limit bounds' => bounds.Agrees bounds'
  | .items form additional, .items form' additional' =>
    form.Alike rel form' ∧ Option.Rel rel additional additional'
  | .dependencies names schemas, .dependencies names' schemas' =>
    (Members.keys names).Nodup ∧ names.Perm names' ∧ MapsAgree rel schemas schemas'
  | .reference ref _ _, .reference ref' _ _ => ref = ref'
  | _, _ => False

/-! ## Twins -/

variable {α : Type} (hasher : Hasher α)

/-- Two schemas are equal and have the same hash. -/
structure Schema.IsTwin (schema other : Schema) : Prop where
  equal : schema.equals other = .ok true
  hash : ∃ x, schema.hash hasher = .ok x ∧ other.hash hasher = .ok x

/-- Two keyword values of one kind are equal and hold what has the same hash. -/
structure KeywordValue.IsTwin (value value' : KeywordValue) : Prop where
  equal : value.equals value' = .ok true
  kind : value.kind = value'.kind
  hash : ∃ x, value.contentHash hasher = .ok x ∧ value'.contentHash hasher = .ok x

/-! ### Plain values -/

theorem sameElements_self {β : Type} [DecidableEq β] (xs : List β) : sameElements xs xs = true := by
  simp [sameElements]

namespace Json.Agrees

variable {v w : Json}

/-- Equal values that are no arrays and no objects coincide. -/
theorem plain (agrees : v.Agrees w) (plain : v.checkPlain = .ok ()) : v.coincides w = true ∧
    ∃ x, v.hashPlain hasher = .ok x ∧ w.hashPlain hasher = .ok x := by
  rcases agrees.cases with ⟨_, _, rfl, -, -⟩ | ⟨_, _, rfl, -, -⟩ | ⟨m, n, rfl, rfl, same⟩ | ⟨rfl, -⟩
  · cases plain
  · cases plain
  · exact ⟨same, hasher.number m, rfl, congrArg Except.ok (hasher.number_congr same).symm⟩
  · cases v with
    | array | object => cases plain
    | number m => exact ⟨agrees.equal, _, rfl, rfl⟩
    | bool b => exact ⟨by cases b <;> decide, _, rfl, rfl⟩
    | _ => exact ⟨by simp [coincides], _, rfl, rfl⟩

end Json.Agrees

theorem freezeOptional_agrees {value value' : Option Json}
    (agrees : Option.Rel Json.Agrees value value') : ∃ a b, freezeOptional value = .ok a ∧
      freezeOptional value' = .ok b ∧ Frozen.sameOptional a b = true ∧
      hasher.optional (a.map (·.hash hasher)) = hasher.optional (b.map (·.hash hasher)) := by
  cases agrees with
  | none => exact ⟨none, none, rfl, rfl, rfl, rfl⟩
  | some agrees =>
    obtain ⟨a, b, here, there, same, hash⟩ := agrees.freeze hasher
    refine ⟨some a, some b, ?_, ?_, same, hash⟩
    · exact congrArg (Except.map some) here
    · exact congrArg (Except.map some) there

theorem Limit.Agrees.twin {limit limit' : Limit} (agrees : limit.Agrees limit') :
    limit.equals limit' = .ok true ∧
      ∃ x, limit.hash hasher = .ok x ∧ limit'.hash hasher = .ok x := by
  obtain ⟨a, b, here, there, same, hash⟩ := freezeOptional_agrees hasher agrees.bound
  obtain ⟨c, d, here', there', same', hash'⟩ :=
    freezeOptional_agrees hasher agrees.exclusiveBound
  have frozen : limit.freeze = .ok (a, c) := by
    unfold freeze
    rw [here, here']
    rfl
  have frozen' : limit'.freeze = .ok (b, d) := by
    unfold freeze
    rw [there, there']
    rfl
  constructor
  · unfold equals
    rw [frozen, frozen']
    show Except.ok _ = _
    rw [same, same', agrees.exclusive]
    simp
  · unfold Limit.hash
    rw [frozen, frozen']
    refine ⟨_, rfl, ?_⟩
    rw [hash, hash', agrees.exclusive]
    rfl

theorem frozen_items {values values' : List Json} (each : List.Forall₂ Json.Agrees values values') :
    ∃ as bs, values.mapM Json.freeze = .ok as ∧ values'.mapM Json.freeze = .ok bs ∧
      Frozen.sameItems as bs = true ∧ as.map (·.hash hasher) = bs.map (·.hash hasher) := by
  induction each with
  | nil => exact ⟨[], [], rfl, rfl, rfl, rfl⟩
  | cons first _ ih =>
    obtain ⟨as, bs, here, there, same, hash⟩ := ih
    obtain ⟨a, b, here', there', same', hash'⟩ := first.freeze hasher
    refine ⟨a :: as, b :: bs, ?_, ?_, ?_, ?_⟩
    · rw [List.mapM_cons, here', here]
      rfl
    · rw [List.mapM_cons, there', there]
      rfl
    · unfold Frozen.sameItems
      rw [same', same]
      rfl
    · rw [List.map_cons, List.map_cons, hash', hash]

/-! ### What has a hash -/

mutual

/-- A schema has a hash if it can be put into a table, and else the same fault. -/
theorem Schema.hash_tabled : ∀ schema : Schema,
    (schema.hash hasher).map (fun _ => ()) = schema.checkTabled
  | .always => rfl
  | .never => rfl
  | .node _ _ _ keywords => by
    unfold Schema.hash Schema.checkTabled
    rw [← KeywordValue.hashes_tabled keywords]
    cases KeywordValue.hashes hasher keywords <;> rfl

theorem KeywordValue.hash_tabled : ∀ value : KeywordValue,
    (value.contentHash hasher).map (fun _ => ()) = value.checkTabled
  | .literal .string value => by cases value <;> rfl
  | .literal .boolean value => by cases value <;> rfl
  | .literal .number value => by
    unfold KeywordValue.contentHash KeywordValue.checkTabled
    cases value.freeze <;> rfl
  | .literal .any value => by
    unfold KeywordValue.contentHash KeywordValue.checkTabled
    cases value.freeze <;> rfl
  | .stringSet _ => rfl
  | .jsonArray values => by
    unfold KeywordValue.contentHash KeywordValue.checkTabled
    cases values.mapM Json.freeze <;> rfl
  | .schema schema => Schema.hash_tabled schema
  | .schemaList schemas => by
    unfold KeywordValue.contentHash KeywordValue.checkTabled
    rw [← Schema.hashes_tabled schemas]
    cases Schema.hashes hasher schemas <;> rfl
  | .schemaMap schemas => by
    unfold KeywordValue.contentHash KeywordValue.checkTabled
    rw [← Schema.entryHashes_tabled schemas]
    cases Schema.entryHashes hasher schemas <;> rfl
  | .types _ => rfl
  | .limit limit => by
    unfold KeywordValue.contentHash KeywordValue.checkTabled Limit.hash
    cases limit.freeze <;> rfl
  | .items form additional => by
    unfold KeywordValue.contentHash KeywordValue.checkTabled
    rw [← ItemsForm.hash_tabled form, ← Schema.optionHash_tabled additional]
    cases form.hash hasher <;> cases Schema.optionHash hasher additional <;> rfl
  | .dependencies _ schemas => by
    unfold KeywordValue.contentHash KeywordValue.checkTabled
    rw [← Schema.entryHashes_tabled schemas]
    cases Schema.entryHashes hasher schemas <;> rfl
  | .reference .. => rfl

theorem KeywordValue.hashes_tabled : ∀ keywords : List (Keyword × KeywordValue),
    (KeywordValue.hashes hasher keywords).map (fun _ => ()) =
      KeywordValue.checkKeywordsTabled keywords
  | [] => rfl
  | (_, value) :: rest => by
    unfold KeywordValue.hashes KeywordValue.checkKeywordsTabled
    rw [← KeywordValue.hash_tabled value, ← KeywordValue.hashes_tabled rest]
    cases value.contentHash hasher <;> cases KeywordValue.hashes hasher rest <;> rfl

theorem ItemsForm.hash_tabled : ∀ form : ItemsForm,
    (form.hash hasher).map (fun _ => ()) = form.checkTabled
  | .absent => rfl
  | .every schema => by
    unfold ItemsForm.hash ItemsForm.checkTabled
    rw [← Schema.hash_tabled schema]
    cases schema.hash hasher <;> rfl
  | .each schemas => by
    unfold ItemsForm.hash ItemsForm.checkTabled
    rw [← Schema.hashes_tabled schemas]
    cases Schema.hashes hasher schemas <;> rfl

theorem Schema.hashes_tabled : ∀ schemas : List Schema,
    (Schema.hashes hasher schemas).map (fun _ => ()) = Schema.checkListTabled schemas
  | [] => rfl
  | schema :: rest => by
    unfold Schema.hashes Schema.checkListTabled
    rw [← Schema.hash_tabled schema, ← Schema.hashes_tabled rest]
    cases schema.hash hasher <;> cases Schema.hashes hasher rest <;> rfl

theorem Schema.entryHashes_tabled : ∀ schemas : List (String × Schema),
    (Schema.entryHashes hasher schemas).map (fun _ => ()) = Schema.checkMapTabled schemas
  | [] => rfl
  | (_, schema) :: rest => by
    unfold Schema.entryHashes Schema.checkMapTabled
    rw [← Schema.hash_tabled schema, ← Schema.entryHashes_tabled rest]
    cases schema.hash hasher <;> cases Schema.entryHashes hasher rest <;> rfl

theorem Schema.optionHash_tabled : ∀ schema : Option Schema,
    (Schema.optionHash hasher schema).map (fun _ => ()) = Schema.checkOptionTabled schema
  | none => rfl
  | some schema => by
    unfold Schema.optionHash Schema.checkOptionTabled
    rw [← Schema.hash_tabled schema]
    cases schema.hash hasher <;> rfl

end

/-! ### Held schemas -/

theorem sameNames_perm {names names' : List (String × List String)}
    (distinct : (Members.keys names).Nodup) (perm : names.Perm names') :
    sameNames names names' = true := by
  unfold sameNames
  rw [perm.length_eq, decide_eq_true rfl, Bool.true_and, List.all_eq_true]
  rintro ⟨name, needed⟩ mem
  dsimp only
  rw [Members.lookup_of_mem distinct (perm.mem_iff.2 mem)]
  exact sameElements_self needed

section Held

variable {hasher}

theorem twins_list {schemas schemas' : List Schema}
    (each : List.Forall₂ (Schema.IsTwin hasher) schemas schemas') :
    Schema.equalLists schemas schemas' = .ok true ∧ ∃ xs, Schema.hashes hasher schemas = .ok xs ∧
      Schema.hashes hasher schemas' = .ok xs := by
  induction each with
  | nil => exact ⟨by rw [Schema.equalLists]; rfl, [], rfl, rfl⟩
  | cons first _ ih =>
    obtain ⟨equal, xs, here, there⟩ := ih
    obtain ⟨equal', x, here', there'⟩ := first
    refine ⟨?_, x :: xs, ?_, ?_⟩
    · rw [Schema.equalLists, equal']
      exact equal
    · unfold Schema.hashes
      rw [here', here]
      rfl
    · unfold Schema.hashes
      rw [there', there]
      rfl

theorem twins_option {schema schema' : Option Schema}
    (related : Option.Rel (Schema.IsTwin hasher) schema schema') :
    Schema.equalOptions schema schema' = .ok true ∧ ∃ x, Schema.optionHash hasher schema = .ok x ∧
      Schema.optionHash hasher schema' = .ok x := by
  cases related with
  | none => exact ⟨by rw [Schema.equalOptions]; rfl, none, rfl, rfl⟩
  | some twin =>
    obtain ⟨equal, x, here, there⟩ := twin
    refine ⟨by rw [Schema.equalOptions, equal], some x, ?_, ?_⟩
    · unfold Schema.optionHash
      rw [here]
      rfl
    · unfold Schema.optionHash
      rw [there]
      rfl

theorem twins_form {form form' : ItemsForm} (alike : form.Alike (Schema.IsTwin hasher) form') :
    form.equals form' = .ok true ∧ ∃ x, form.hash hasher = .ok x ∧ form'.hash hasher = .ok x := by
  cases form <;> cases form'
  case absent.absent => exact ⟨by rw [ItemsForm.equals], _, rfl, rfl⟩
  case every.every =>
    obtain ⟨equal, x, here, there⟩ := alike
    refine ⟨by rw [ItemsForm.equals, equal], (x, hasher.nothing), ?_, ?_⟩
    · unfold ItemsForm.hash
      rw [here]
      rfl
    · unfold ItemsForm.hash
      rw [there]
      rfl
  case each.each =>
    obtain ⟨equal, xs, here, there⟩ := twins_list alike
    refine ⟨by rw [ItemsForm.equals, equal], (hasher.nothing, hasher.tuple xs), ?_, ?_⟩
    · unfold ItemsForm.hash
      rw [here]
      rfl
    · unfold ItemsForm.hash
      rw [there]
      rfl
  all_goals exact alike.elim

theorem entryHashes_ok {schemas : List (String × Schema)} {xs : List α}
    (each : List.Forall₂ (fun entry x =>
      ∃ y, entry.2.hash hasher = .ok y ∧ hasher.tuple [hasher.text entry.1, y] = x) schemas xs) :
    Schema.entryHashes hasher schemas = .ok xs := by
  induction each with
  | nil => rfl
  | cons first _ ih =>
    obtain ⟨y, here, rfl⟩ := first
    unfold Schema.entryHashes
    rw [here, ih]
    rfl

theorem hashes_ok {keywords : List (Keyword × KeywordValue)} {xs : List α}
    (each : List.Forall₂ (fun entry x =>
      ∃ y, entry.2.contentHash hasher = .ok y ∧ hasher.keyword entry.1.key entry.2.kind y = x)
      keywords xs) : KeywordValue.hashes hasher keywords = .ok xs := by
  induction each with
  | nil => rfl
  | cons first _ ih =>
    obtain ⟨y, here, rfl⟩ := first
    unfold KeywordValue.hashes
    rw [here, ih]
    rfl

/-- Maps that agree in twins are equal, and their entries have the same hashes in some order. -/
theorem MapsAgree.twin {schemas schemas' : List (String × Schema)}
    (agrees : MapsAgree (Schema.IsTwin hasher) schemas schemas') :
    Schema.equalMaps schemas schemas' = .ok true ∧ ∃ xs ys,
      Schema.entryHashes hasher schemas = .ok xs ∧ Schema.entryHashes hasher schemas' = .ok ys ∧
        xs.Perm ys := by
  constructor
  · have each : ∀ entry ∈ schemas', ∃ other, schemas.lookup entry.1 = some other ∧
        other.equals entry.2 = .ok true := by
      intro entry mem
      obtain ⟨other, found, twin⟩ := Members.exists_lookup agrees.distinct agrees.matched mem
      exact ⟨other, found, twin.equal⟩
    clear agrees
    induction schemas' with
    | nil => rw [Schema.equalMaps]
    | cons entry rest ih =>
      obtain ⟨other, found, equal⟩ := each entry List.mem_cons_self
      rw [Schema.equalMaps, found]
      dsimp only
      rw [equal]
      exact ih fun entry mem => each entry (List.mem_cons_of_mem _ mem)
  · obtain ⟨xs, ys, here, there, perm⟩ := agrees.matched.exists_common
      (P := fun entry x => ∃ y, entry.2.hash hasher = .ok y ∧
        hasher.tuple [hasher.text entry.1, y] = x)
      (Q := fun entry x => ∃ y, entry.2.hash hasher = .ok y ∧
        hasher.tuple [hasher.text entry.1, y] = x) fun entry entry' ⟨name, twin⟩ => by
          obtain ⟨y, here, there⟩ := twin.hash
          exact ⟨_, ⟨y, here, rfl⟩, y, there, by rw [name]⟩
    exact ⟨xs, ys, entryHashes_ok here, entryHashes_ok there, perm⟩

/-! ### Keyword values -/

namespace KeywordValue.IsTwin

theorem literal {kind : LiteralKind} {value value' : Json} (agrees : value.Agrees value')
    (plain : kind = .string ∨ kind = .boolean → value.checkPlain = .ok ()) :
    (KeywordValue.literal kind value).IsTwin hasher (.literal kind value') := by
  obtain ⟨a, b, frozen, frozen', same, hash⟩ := agrees.freeze hasher
  cases kind
  case string =>
    obtain ⟨same, x, here, there⟩ := agrees.plain hasher (plain (.inl rfl))
    exact ⟨by rw [KeywordValue.equals]; exact congrArg Except.ok same, rfl, x, here, there⟩
  case boolean =>
    obtain ⟨same, x, here, there⟩ := agrees.plain hasher (plain (.inr rfl))
    exact ⟨by rw [KeywordValue.equals]; exact congrArg Except.ok same, rfl, x, here, there⟩
  all_goals
    refine ⟨?_, rfl, a.hash hasher, ?_, ?_⟩
    · rw [KeywordValue.equals]
      rw [frozen, frozen']
      exact congrArg Except.ok same
    · rw [KeywordValue.contentHash, frozen]
      rfl
    · rw [KeywordValue.contentHash, frozen', hash]
      rfl

theorem jsonArray {values values' : List Json} (each : List.Forall₂ Json.Agrees values values') :
    (KeywordValue.jsonArray values).IsTwin hasher (.jsonArray values') := by
  obtain ⟨as, bs, here, there, same, hash⟩ := frozen_items hasher each
  refine ⟨?_, rfl, hasher.tuple (as.map (·.hash hasher)), ?_, ?_⟩
  · rw [KeywordValue.equals]
    rw [here, there]
    exact congrArg Except.ok same
  · rw [KeywordValue.contentHash, here]
    rfl
  · rw [KeywordValue.contentHash, there, hash]
    rfl

theorem schemaList {schemas schemas' : List Schema}
    (each : List.Forall₂ (Schema.IsTwin hasher) schemas schemas') :
    (KeywordValue.schemaList schemas).IsTwin hasher (.schemaList schemas') := by
  obtain ⟨equal, xs, here, there⟩ := twins_list each
  refine ⟨by rw [KeywordValue.equals]; exact equal, rfl, hasher.tuple xs, ?_, ?_⟩
  · rw [KeywordValue.contentHash, here]
    rfl
  · rw [KeywordValue.contentHash, there]
    rfl

theorem schemaMap {schemas schemas' : List (String × Schema)}
    (agrees : MapsAgree (Schema.IsTwin hasher) schemas schemas') :
    (KeywordValue.schemaMap schemas).IsTwin hasher (.schemaMap schemas') := by
  have length := agrees.matched.length_eq
  obtain ⟨equal, xs, ys, here, there, perm⟩ := agrees.twin
  refine ⟨?_, rfl, hasher.set xs, ?_, ?_⟩
  · rw [KeywordValue.equals]
    rw [← Schema.entryHashes_tabled hasher, ← Schema.entryHashes_tabled hasher, here, there,
      if_pos length]
    exact equal
  · rw [KeywordValue.contentHash, here]
    rfl
  · rw [KeywordValue.contentHash, there, hasher.set_congr perm]
    rfl

theorem items {form form' : ItemsForm} {additional additional' : Option Schema}
    (alike : form.Alike (Schema.IsTwin hasher) form')
    (related : Option.Rel (Schema.IsTwin hasher) additional additional') :
    (KeywordValue.items form additional).IsTwin hasher (.items form' additional') := by
  obtain ⟨equal, p, here, there⟩ := twins_form alike
  obtain ⟨equal', x, here', there'⟩ := twins_option related
  refine ⟨?_, rfl, hasher.tuple [p.1, p.2, hasher.optional x], ?_, ?_⟩
  · rw [KeywordValue.equals]
    rw [equal]
    exact equal'
  · rw [KeywordValue.contentHash, here, here']
    rfl
  · rw [KeywordValue.contentHash, there, there']
    rfl

theorem dependencies {names names' : List (String × List String)}
    {schemas schemas' : List (String × Schema)} (distinct : (Members.keys names).Nodup)
    (same : names.Perm names') (agrees : MapsAgree (Schema.IsTwin hasher) schemas schemas') :
    (KeywordValue.dependencies names schemas).IsTwin hasher (.dependencies names' schemas') := by
  have length := agrees.matched.length_eq
  obtain ⟨equal, xs, ys, here, there, perm⟩ := agrees.twin
  refine ⟨?_, rfl, hasher.tuple [hashNames hasher names, hasher.set xs], ?_, ?_⟩
  · rw [KeywordValue.equals]
    rw [← Schema.entryHashes_tabled hasher, ← Schema.entryHashes_tabled hasher, here, there,
      sameNames_perm distinct same, if_pos (by simp [length])]
    exact equal
  · rw [KeywordValue.contentHash, here]
    rfl
  · rw [KeywordValue.contentHash, there, hasher.set_congr perm]
    unfold hashNames
    rw [hasher.set_congr (same.map _)]
    rfl

end KeywordValue.IsTwin

/-- Keyword values that agree in twins are twins. -/
theorem KeywordValue.Agrees.twin {value value' : KeywordValue}
    (agrees : value.Agrees (Schema.IsTwin hasher) value') : value.IsTwin hasher value' := by
  unfold KeywordValue.Agrees at agrees
  split at agrees
  · obtain ⟨rfl, agrees, plain⟩ := agrees
    exact .literal agrees plain
  · subst agrees
    refine ⟨?_, rfl, _, rfl, rfl⟩
    rw [KeywordValue.equals]
    exact congrArg Except.ok (sameElements_self _)
  · exact .jsonArray agrees
  · exact ⟨by rw [KeywordValue.equals]; exact agrees.equal, rfl, agrees.hash⟩
  · exact .schemaList agrees
  · exact .schemaMap agrees
  · subst agrees
    refine ⟨?_, rfl, _, rfl, rfl⟩
    rw [KeywordValue.equals]
    exact congrArg Except.ok (sameElements_self _)
  · obtain ⟨equal, x, here, there⟩ := Limit.Agrees.twin hasher agrees
    exact ⟨by rw [KeywordValue.equals]; exact equal, rfl, x, here, there⟩
  · exact .items agrees.1 agrees.2
  · exact .dependencies agrees.1 agrees.2.1 agrees.2.2
  · subst agrees
    refine ⟨?_, rfl, _, rfl, rfl⟩
    rw [KeywordValue.equals]
    simp
  · exact agrees.elim

theorem Schema.hash_eq (schema : Schema) : schema.hash hasher =
    (KeywordValue.hashes hasher schema.keywords).map hasher.set := by
  cases schema with
  | node id location draft keywords =>
    unfold Schema.hash
    rw [Schema.keywords]
    cases KeywordValue.hashes hasher keywords <;> rfl
  | _ => rfl

/-- A node is the twin of a schema if their keywords agree in twins. -/
theorem Schema.IsTwin.of_keywords {schema : Schema} {id : SchemaId} {location : Option Location}
    {draft : Draft} {keywords : List (Keyword × KeywordValue)}
    (distinct : (Members.keys schema.keywords).Nodup)
    (matched : Matched (Members.Paired (KeywordValue.Agrees (Schema.IsTwin hasher)))
      schema.keywords keywords) : schema.IsTwin hasher (.node id location draft keywords) := by
  have length := matched.length_eq
  constructor
  · have each : ∀ entry ∈ keywords, ∃ other, schema.keywords.lookup entry.1 = some other ∧
        other.equals entry.2 = .ok true := by
      intro entry mem
      obtain ⟨other, found, agrees⟩ := Members.exists_lookup distinct matched mem
      exact ⟨other, found, agrees.twin.equal⟩
    have equal : KeywordValue.equalKeywords schema.keywords keywords = .ok true := by
      clear matched length
      induction keywords with
      | nil => rw [KeywordValue.equalKeywords]
      | cons entry rest ih =>
        obtain ⟨other, found, equal⟩ := each entry List.mem_cons_self
        rw [KeywordValue.equalKeywords, found]
        dsimp only
        rw [equal]
        exact ih fun entry mem => each entry (List.mem_cons_of_mem _ mem)
    rw [Schema.equals]
    split
    · rfl
    · exact equal
  · obtain ⟨xs, ys, here, there, perm⟩ := matched.exists_common
      (P := fun entry x => ∃ y, entry.2.contentHash hasher = .ok y ∧
        hasher.keyword entry.1.key entry.2.kind y = x)
      (Q := fun entry x => ∃ y, entry.2.contentHash hasher = .ok y ∧
        hasher.keyword entry.1.key entry.2.kind y = x) fun entry entry' ⟨keyword, agrees⟩ => by
          obtain ⟨y, here, there⟩ := agrees.twin.hash
          exact ⟨_, ⟨y, here, rfl⟩, y, there, by rw [keyword, agrees.twin.kind]⟩
    refine ⟨hasher.set xs, ?_, ?_⟩
    · rw [Schema.hash_eq, hashes_ok here]
      rfl
    · rw [Schema.hash_eq, Schema.keywords, hashes_ok there, hasher.set_congr perm]
      rfl

theorem isTwin_ofBool (hasher : Hasher α) (b : Bool) :
    (Schema.ofBool b).IsTwin hasher (.ofBool b) := by
  cases b with
  | true => exact ⟨by rw [Schema.ofBool, if_pos rfl, Schema.equals]; rfl, _, rfl, rfl⟩
  | false => exact ⟨by rw [Schema.ofBool, if_neg Bool.false_ne_true, Schema.equals]; rfl, _, rfl, rfl⟩

end Held

/-! ## Other identities -/

mutual

/-- A schema in which the nodes have other identities. -/
def Schema.relabel (label : SchemaId → SchemaId) : Schema → Schema
  | .always => .always
  | .never => .never
  | .node id location draft keywords =>
    .node (label id) location draft (KeywordValue.relabelAll label keywords)

/-- A keyword value in which the nodes have other identities. -/
def KeywordValue.relabel (label : SchemaId → SchemaId) : KeywordValue → KeywordValue
  | .schema inner => .schema (inner.relabel label)
  | .schemaList schemas => .schemaList (Schema.relabelList label schemas)
  | .schemaMap schemas => .schemaMap (Schema.relabelMap label schemas)
  | .items form additional => .items (form.relabel label) (Schema.relabelOption label additional)
  | .dependencies names schemas => .dependencies names (Schema.relabelMap label schemas)
  | .literal kind value => .literal kind value
  | .stringSet names => .stringSet names
  | .jsonArray values => .jsonArray values
  | .types listed => .types listed
  | .limit bounds => .limit bounds
  | .reference ref uri target => .reference ref uri target

/-- Keywords in whose values the nodes have other identities. -/
def KeywordValue.relabelAll (label : SchemaId → SchemaId) :
    List (Keyword × KeywordValue) → List (Keyword × KeywordValue)
  | [] => []
  | (keyword, value) :: rest => (keyword, value.relabel label) :: KeywordValue.relabelAll label rest

/-- What `items` says, with other identities. -/
def ItemsForm.relabel (label : SchemaId → SchemaId) : ItemsForm → ItemsForm
  | .absent => .absent
  | .every schema => .every (schema.relabel label)
  | .each schemas => .each (Schema.relabelList label schemas)

/-- A list of schemas with other identities. -/
def Schema.relabelList (label : SchemaId → SchemaId) : List Schema → List Schema
  | [] => []
  | schema :: rest => schema.relabel label :: Schema.relabelList label rest

/-- A map of schemas with other identities. -/
def Schema.relabelMap (label : SchemaId → SchemaId) :
    List (String × Schema) → List (String × Schema)
  | [] => []
  | (name, schema) :: rest => (name, schema.relabel label) :: Schema.relabelMap label rest

/-- A schema that may be missing, with other identities. -/
def Schema.relabelOption (label : SchemaId → SchemaId) : Option Schema → Option Schema
  | none => none
  | some schema => some (schema.relabel label)

end

section Relabel

variable {label : SchemaId → SchemaId} {rel rel' : Schema → Schema → Prop}

theorem relabel_ofBool (b : Bool) : (Schema.ofBool b).relabel label = .ofBool b := by
  cases b <;> rfl

theorem relabelAll_eq (keywords : List (Keyword × KeywordValue)) :
    KeywordValue.relabelAll label keywords =
      keywords.map fun entry => (entry.1, entry.2.relabel label) := by
  induction keywords with
  | nil => rfl
  | cons entry rest ih => exact congrArg (_ :: ·) ih

theorem relabelMap_eq (schemas : List (String × Schema)) :
    Schema.relabelMap label schemas =
      schemas.map fun entry => (entry.1, entry.2.relabel label) := by
  induction schemas with
  | nil => rfl
  | cons entry rest ih => exact congrArg (_ :: ·) ih

theorem relabelList_forall₂ {schemas schemas' : List Schema}
    (related : ∀ a ∈ schemas, ∀ b ∈ schemas', rel a b → rel' a (b.relabel label))
    (each : List.Forall₂ rel schemas schemas') :
    List.Forall₂ rel' schemas (Schema.relabelList label schemas') := by
  induction each with
  | nil => exact .nil
  | cons first _ ih =>
    refine .cons (related _ List.mem_cons_self _ List.mem_cons_self first) (ih ?_)
    exact fun a mem b mem' => related a (List.mem_cons_of_mem _ mem) b (List.mem_cons_of_mem _ mem')

/-- Related members stay matched when those of the second list are changed. -/
theorem Matched.paired_map {κ α β γ : Type} {R : α → β → Prop} {S : α → γ → Prop} {f : β → γ}
    {xs : List (κ × α)} {ys : List (κ × β)} (matched : Matched (Members.Paired R) xs ys)
    (related : ∀ x ∈ xs, ∀ y ∈ ys, R x.2 y.2 → S x.2 (f y.2)) :
    Matched (Members.Paired S) xs (ys.map fun y => (y.1, f y.2)) := by
  have same : List.Forall₂ (fun x x' => x ∈ xs ∧ x = x') xs xs :=
    List.forall₂_same.2 fun x mem => ⟨mem, rfl⟩
  have changed : List.Forall₂ (fun y z => y ∈ ys ∧ (y.1, f y.2) = z) ys
      (ys.map fun y => (y.1, f y.2)) :=
    List.forall₂_map_right_iff.2 (List.forall₂_same.2 fun y mem => ⟨mem, rfl⟩)
  refine matched.through same changed ?_
  rintro x y _ _ ⟨name, here⟩ ⟨mem, rfl⟩ ⟨mem', rfl⟩
  exact ⟨name, related x mem y mem' here⟩

theorem MapsAgree.relabel {schemas schemas' : List (String × Schema)}
    (related : ∀ a ∈ schemas.map Prod.snd, ∀ b ∈ schemas'.map Prod.snd, rel a b →
      rel' a (b.relabel label)) (agrees : MapsAgree rel schemas schemas') :
    MapsAgree rel' schemas (Schema.relabelMap label schemas') where
  distinct := agrees.distinct
  matched := by
    rw [relabelMap_eq]
    exact agrees.matched.paired_map fun x mem y mem' =>
      related _ (List.mem_map_of_mem mem) _ (List.mem_map_of_mem mem')

theorem ItemsForm.Alike.relabel {form form' : ItemsForm}
    (related : ∀ a ∈ form.schemas, ∀ b ∈ form'.schemas, rel a b → rel' a (b.relabel label))
    (alike : form.Alike rel form') : form.Alike rel' (form'.relabel label) := by
  cases form <;> cases form'
  case absent.absent => trivial
  case every.every => exact related _ List.mem_cons_self _ List.mem_cons_self alike
  case each.each => exact relabelList_forall₂ related alike
  all_goals exact alike.elim

/-- Keyword values that agree still do when nodes get other identities, if the schemas that they hold
stay related. -/
theorem KeywordValue.Agrees.relabel {value value' : KeywordValue}
    (related : ∀ a ∈ value.schemas, ∀ b ∈ value'.schemas, rel a b → rel' a (b.relabel label))
    (agrees : value.Agrees rel value') : value.Agrees rel' (value'.relabel label) := by
  unfold KeywordValue.Agrees at agrees
  split at agrees
  · exact agrees
  · exact agrees
  · exact agrees
  · exact related _ List.mem_cons_self _ List.mem_cons_self agrees
  · exact relabelList_forall₂ related agrees
  · exact agrees.relabel related
  · exact agrees
  · exact agrees
  · obtain ⟨alike, additional⟩ := agrees
    refine ⟨alike.relabel fun a mem b mem' => related a (List.mem_append_left _ mem) b
      (List.mem_append_left _ mem'), ?_⟩
    cases additional with
    | none => exact .none
    | some here =>
      exact .some (related _ (List.mem_append_right _ List.mem_cons_self) _
        (List.mem_append_right _ List.mem_cons_self) here)
  · exact ⟨agrees.1, agrees.2.1, agrees.2.2.relabel related⟩
  · exact agrees
  · exact agrees.elim

end Relabel

end JsonSchema
