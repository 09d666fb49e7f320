import JsonSchema.Proofs.Bounds
import JsonSchema.Proofs.Compilable
import JsonSchema.Proofs.Orderly

/-!
# Calls on a builder

A caller changes one builder in place. A call reads what is there, may stop at any of its checks, and
writes last. `Call.perform` goes through these steps on a builder that keeps whatever was written
when a step stops, and comes to the operations of `SchemaBuilder` (`Call.run_perform`): a call that
stops has written nothing.

So of a run of calls whose faults are caught, only those that went through matter, and what was
checked when a value was put in holds of the builder at any time (`run_attempts`).
-/

namespace JsonSchema

namespace ItemsForm

/-- The one schema for all items. -/
def every? : ItemsForm → Option Schema
  | .every schema => some schema
  | _ => none

/-- The schemas for the positions. -/
def each? : ItemsForm → Option (List Schema)
  | .each schemas => some schemas
  | _ => none

theorem not_both (form : ItemsForm) : form.every? = none ∨ form.each? = none := by
  cases form with
  | absent | each => exact .inl rfl
  | every => exact .inr rfl

end ItemsForm

namespace SchemaBuilder

/-! ## Calls -/

/-- What a caller gives as the value of a keyword. -/
inductive Given where
  | value (value : KeywordValue)
  /-- Something else, of the named type. -/
  | other (typeName : String)

/-- A call that may change a builder. -/
inductive Call where
  | put (keyword : Keyword) (given : Given)
  | types (types : List InstanceType)
  | property (name : String) (schema : Schema)
  | required (names : List String)
  | items (every : Option Schema) (each : Option (List Schema))
  | additionalItems (schema : Schema)

/-- Steps on one builder in place. What was written before a step stops stays written. -/
abbrev Edit := ExceptT Fault (StateM SchemaBuilder)

/-- A step that checks something. -/
def Edit.check {α : Type} : Except Fault α → Edit α
  | .ok value => pure value
  | .error fault => throw fault

/-- Stores a value once it is checked. -/
def store (keyword : Keyword) (value : KeywordValue) : Edit Unit := do
  Edit.check (check keyword value)
  modify fun builder => { builder with keywords := Members.put builder.keywords keyword value }

/-- Makes items of the given forms and stores them. -/
def storeItems (every : Option Schema) (each : Option (List Schema))
    (additional : Option Schema) : Edit Unit :=
  match KeywordValue.makeItems every each additional with
  | .ok value => store Builtin.items value
  | .error _ => throw (.keywordConflict Builtin.items.key .bothFormsGiven)

/-- The form of the items so far. -/
def form (builder : SchemaBuilder) : ItemsForm :=
  match builder.get? Builtin.items with
  | some (.items form _) => form
  | _ => .absent

/-- The schema for additional items so far. -/
def additional? (builder : SchemaBuilder) : Option Schema :=
  match builder.get? Builtin.items with
  | some (.items _ additional) => additional
  | _ => none

/-- The properties so far. -/
def properties (builder : SchemaBuilder) : List (String × Schema) :=
  match builder.get? Builtin.properties with
  | some (.schemaMap schemas) => schemas
  | _ => []

/-- The names of required properties so far. -/
def requiredNames (builder : SchemaBuilder) : List String :=
  match builder.get? Builtin.required with
  | some (.stringSet names) => names
  | _ => []

namespace Call

/-- The steps of a call. -/
def perform : Call → Edit Unit
  | .put keyword (.value value) => store keyword value
  | .put keyword (.other typeName) => throw (.notAKeywordValue keyword.key typeName)
  | .types given => store Builtin.type (.types given)
  | .property name schema => do
    let known := (← get).properties
    store Builtin.properties (.schemaMap (Members.put known name schema))
  | .required names => do
    let known := (← get).requiredNames
    let new := names.filter fun name => !known.contains name
    store Builtin.required (.stringSet (known ++ new))
  | .items every each => do
    let form := (← get).form
    let additional := (← get).additional?
    if (every.isSome && form.each?.isSome) || (each.isSome && form.every?.isSome) then
      throw (.keywordConflict Builtin.items.key .otherFormGiven)
    storeItems every each additional
  | .additionalItems schema => do
    store Builtin.items (.items (← get).form (some schema))

/-- The operation that a call stands for. -/
def apply : Call → SchemaBuilder → Except Fault SchemaBuilder
  | .put keyword (.value value), builder => builder.put keyword value
  | .put keyword (.other typeName), _ => .error (.notAKeywordValue keyword.key typeName)
  | .types given, builder => builder.types given
  | .property name schema, builder => builder.property name schema
  | .required names, builder => builder.required names
  | .items every each, builder => builder.items every each
  | .additionalItems schema, builder => builder.additionalItems schema

/-- The builder after a call, whether the call went through or not. -/
def after (call : Call) (builder : SchemaBuilder) : SchemaBuilder :=
  (call.perform.run.run builder).2

end Call

/-- What running an operation in place comes to: its result is there, or nothing has changed. -/
def commit (result : Except Fault SchemaBuilder) (builder : SchemaBuilder) :
    Except Fault Unit × SchemaBuilder :=
  match result with
  | .ok builder' => (.ok (), builder')
  | .error fault => (.error fault, builder)

variable {builder builder' : SchemaBuilder} {keyword : Keyword} {value : KeywordValue}

theorem run_store (keyword : Keyword) (value : KeywordValue) (builder : SchemaBuilder) :
    (store keyword value).run.run builder = commit (builder.put keyword value) builder := by
  unfold store put
  cases check keyword value with
  | error fault => rfl
  | ok checked => rfl

theorem run_storeItems (every : Option Schema) (each : Option (List Schema))
    (additional : Option Schema) (builder : SchemaBuilder) :
    (storeItems every each additional).run.run builder =
      commit (builder.putItems every each additional) builder := by
  unfold storeItems putItems
  cases KeywordValue.makeItems every each additional with
  | ok value => exact run_store _ value builder
  | error fault => rfl

/-- Setting items puts in what is made of them, unless the other form is there. -/
theorem items_eq (builder : SchemaBuilder) (every : Option Schema) (each : Option (List Schema)) :
    builder.items every each =
      if (every.isSome && builder.form.each?.isSome) || (each.isSome && builder.form.every?.isSome)
      then .error (.keywordConflict Builtin.items.key .otherFormGiven)
      else builder.putItems every each builder.additional? := by
  unfold items form additional?
  cases builder.get? Builtin.items with
  | none => cases every <;> cases each <;> rfl
  | some known =>
    cases known with
    | items form additional =>
      cases form with
      | absent | every schema | each schemas => cases every <;> cases each <;> rfl
    | _ => cases every <;> cases each <;> rfl

/-- A call does in place what the operation does, and changes nothing if it stops. -/
theorem Call.run_perform (call : Call) (builder : SchemaBuilder) :
    call.perform.run.run builder = commit (call.apply builder) builder := by
  cases call with
  | put keyword given =>
    cases given with
    | value value => exact run_store keyword value builder
    | other typeName => rfl
  | types types => exact run_store _ _ builder
  | property name schema =>
    exact run_store Builtin.properties (.schemaMap (Members.put builder.properties name schema)) builder
  | required names =>
    exact run_store Builtin.required (.stringSet (builder.requiredNames ++
      names.filter fun name => !builder.requiredNames.contains name)) builder
  | items every each =>
    change (if _ then _ else _ : Edit Unit).run.run builder = commit (builder.items every each) builder
    rw [items_eq]
    split
    · rfl
    · exact run_storeItems ..
  | additionalItems schema =>
    exact run_store Builtin.items (.items builder.form (some schema)) builder

theorem Call.after_eq (call : Call) (builder : SchemaBuilder) :
    call.after builder = (commit (call.apply builder) builder).2 :=
  congrArg Prod.snd (call.run_perform builder)

/-- A call that stops leaves the builder as it was. -/
theorem Call.after_stopped (call : Call) {fault : Fault}
    (stopped : (call.perform.run.run builder).1 = .error fault) : call.after builder = builder := by
  rw [call.run_perform] at stopped
  rw [call.after_eq]
  cases done : call.apply builder with
  | error fault => rfl
  | ok builder' =>
    rw [done] at stopped
    cases stopped

/-! ## Items -/

/-- Items that are put in are what the builder then has. -/
theorem items_of_put {form : ItemsForm} {additional : Option Schema}
    (ok : builder.put Builtin.items (.items form additional) = .ok builder') :
    builder'.form = form ∧ builder'.additional? = additional := by
  have found : builder'.get? Builtin.items = some (.items form additional) := by
    unfold get?
    rw [put_keywords ok, Members.lookup_put, if_pos rfl]
  unfold SchemaBuilder.form SchemaBuilder.additional?
  rw [found]
  exact ⟨rfl, rfl⟩

theorem exists_of_makeItems {every : Option Schema} {each : Option (List Schema)}
    {additional : Option Schema} (ok : KeywordValue.makeItems every each additional = .ok value) :
    ∃ form, value = .items form additional := by
  unfold KeywordValue.makeItems at ok
  split at ok
  · cases ok
  all_goals
    cases ok
    exact ⟨_, rfl⟩

/-- Setting the items keeps the schema for additional items. -/
theorem Call.additional_items (builder : SchemaBuilder) (every : Option Schema)
    (each : Option (List Schema)) :
    ((Call.items every each).after builder).additional? = builder.additional? := by
  rw [Call.after_eq]
  change (commit (builder.items every each) builder).2.additional? = _
  rw [items_eq]
  split
  · rfl
  · unfold putItems
    cases made : KeywordValue.makeItems every each builder.additional? with
    | error fault => rfl
    | ok value =>
      obtain ⟨form, rfl⟩ := exists_of_makeItems made
      dsimp only
      cases put : builder.put Builtin.items (.items form builder.additional?) with
      | error fault => rfl
      | ok builder' => exact (items_of_put put).2

/-- Setting the schema for additional items keeps both forms. -/
theorem Call.form_additionalItems (builder : SchemaBuilder) (schema : Schema) :
    ((Call.additionalItems schema).after builder).form = builder.form := by
  rw [Call.after_eq]
  change (commit (builder.put Builtin.items (.items builder.form (some schema))) builder).2.form = _
  cases put : builder.put Builtin.items (.items builder.form (some schema)) with
  | error fault => rfl
  | ok builder' => exact (items_of_put put).1

/-! ## What is checked -/

/-- What holds of every value that is stored for a keyword. -/
structure IsSound (keyword : Keyword) (value : KeywordValue) : Prop where
  kind : value.kind = keyword.kind ∨ ∃ variant ∈ keyword.variants, value.kind = variant.kind
  count : keyword.key ∈ Builtin.countKeys → ∃ (n : Number) (k : Nat),
    value.literal? = some (.number n) ∧
      n.exactValue? = some (((k : Rat) : WithTop Rat) : WithBot (WithTop Rat))
  divisor : keyword = Builtin.multipleOf ∨ keyword = Builtin.divisibleBy → ∃ n : Number,
    value.literal? = some (.number n) ∧ ∀ q, n.exactValue? = some q → 0 < q
  pattern : keyword = Builtin.pattern → ∃ text regex, Pattern.Regex.parse text = .ok regex ∧
    (value = .literal .string (.string text) ∨ value = .literal .string (.bytes text))
  names : keyword = Builtin.patternProperties → ∃ schemas, value = .schemaMap schemas ∧
    ∀ name ∈ Members.keys schemas, ∃ regex, Pattern.Regex.parse name = .ok regex
  items : keyword = Builtin.items → ∃ form additional, value = .items form additional ∧
    (form.every? = none ∨ form.each? = none)

theorem kind_of_takesKind {kind : KeywordKind} (takes : takesKind keyword kind = true) :
    kind = keyword.kind ∨ ∃ variant ∈ keyword.variants, kind = variant.kind := by
  unfold takesKind at takes
  rw [Bool.or_eq_true, decide_eq_true_iff, List.any_eq_true] at takes
  exact takes.imp_right fun ⟨variant, mem, same⟩ => ⟨variant, mem, (decide_eq_true_iff.1 same).symm⟩

/-- The form of a value whose keyword has one kind in all drafts. -/
theorem isKindOf_of_check (ok : check keyword value = .ok ())
    (single : ∀ variant ∈ keyword.variants, variant.kind = keyword.kind) :
    keyword.kind.IsKindOf value := by
  have same : value.kind = keyword.kind := by
    rcases kind_of_takesKind (takesKind_of_check ok) with same | ⟨variant, mem, same⟩
    · exact same
    · exact same.trans (single variant mem)
  exact same ▸ value.isKindOf_kind

theorem literal_of_plain {json : Json} (held : plain value = json) (other : json ≠ .null) :
    value.literal? = some json := by
  unfold plain at held
  cases found : value.literal? with
  | none =>
    rw [found] at held
    exact absurd held.symm other
  | some literal =>
    rw [found] at held
    exact congrArg some held

/-- The exact value of a whole number that is not negative. -/
theorem exactValue_of_isCount {json : Json} (count : isCount json = true) :
    ∃ (n : Number) (k : Nat), json = .number n ∧
      n.exactValue? = some (((k : Rat) : WithTop Rat) : WithBot (WithTop Rat)) := by
  cases json with
  | number n =>
    obtain ⟨integral, least⟩ := Bool.and_eq_true_iff.1 count
    rw [Number.isIntegral_eq] at integral
    cases placed : n.place? with
    | none =>
      rw [placed] at integral
      cases integral
    | some place =>
      rw [placed] at integral
      cases place with
      | rational q =>
        have value : n.exactValue? = some ((q : WithTop Rat) : WithBot (WithTop Rat)) :=
          congrArg (Option.map Extended.toLine) placed
        have whole : (q.num : Rat) = q := Rat.den_eq_one_iff q |>.1 (of_decide_eq_true integral)
        have positive : 0 ≤ q := by
          by_contra below
          have less : n.less (.int 0) = true :=
            (Number.less_iff_lt value rfl).2
              (WithBot.coe_lt_coe.2 (WithTop.coe_lt_coe.2 (not_le.1 below)))
          rw [less] at least
          cases least
        refine ⟨n, q.num.toNat, rfl, ?_⟩
        have natural : ((q.num.toNat : Int) : Rat) = q := by
          rw [Int.toNat_of_nonneg (Rat.num_nonneg.2 positive), whole]
        rw [Int.cast_natCast] at natural
        rw [value, natural]
      | bottom => cases integral
      | top => cases integral
  | _ => cases count

/-- A divisor that has an exact value is positive. -/
theorem exists_of_isDivisor {json : Json} (divisor : isDivisor json = true) :
    ∃ n : Number, json = .number n ∧ ∀ q, n.exactValue? = some q → 0 < q := by
  cases json with
  | number n =>
    refine ⟨n, rfl, fun q value => ?_⟩
    have beyond : (n.less (.int 0) || n.equals (.int 0)) = false := Bool.not_eq_true' _ ▸ divisor
    obtain ⟨least, other⟩ := Bool.or_eq_false_iff.1 beyond
    have zero : (Number.int 0).exactValue? = some 0 := rfl
    have above : ¬ q < 0 := fun below => by
      rw [(Number.less_iff_lt value zero).2 below] at least
      cases least
    have apart : q ≠ 0 := fun same => by
      rw [(Number.equals_iff_eq value zero).2 same] at other
      cases other
    exact lt_of_le_of_ne (not_lt.1 above) apart.symm
  | _ => cases divisor

theorem isSound_of_check (ok : check keyword value = .ok ()) : IsSound keyword value where
  kind := kind_of_takesKind (takesKind_of_check ok)
  count counts := by
    obtain ⟨n, k, held, exact⟩ :=
      exactValue_of_isCount (isCount_of_check (List.contains_iff_mem.2 counts) ok)
    exact ⟨n, k, literal_of_plain held nofun, exact⟩
  divisor known := by
    obtain ⟨n, held, least⟩ := exists_of_isDivisor (Load.isDivisor_of_check known ok)
    exact ⟨n, literal_of_plain held nofun, least⟩
  pattern := by
    rintro rfl
    obtain ⟨json, rfl⟩ : KeywordKind.string.IsKindOf value := isKindOf_of_check ok nofun
    have checked : checkPatternValue Builtin.pattern.key json = .ok () := ok
    cases json with
    | string text =>
      obtain ⟨regex, parsed⟩ := exists_parse_of_checkPattern checked
      exact ⟨text, regex, parsed, .inl rfl⟩
    | bytes text =>
      obtain ⟨regex, parsed⟩ := exists_parse_of_checkPattern checked
      exact ⟨text, regex, parsed, .inr rfl⟩
    | _ => cases checked
  names := by
    rintro rfl
    obtain ⟨schemas, rfl⟩ : KeywordKind.schemaMap.IsKindOf value := isKindOf_of_check ok nofun
    exact ⟨schemas, rfl, fun name mem => exists_parse_of_check_names ok mem⟩
  items := by
    rintro rfl
    obtain ⟨form, additional, rfl⟩ : KeywordKind.items.IsKindOf value :=
      isKindOf_of_check ok (by decide)
    exact ⟨form, additional, rfl, form.not_both⟩

/-- Every call that goes through puts in a value that was checked. -/
theorem Call.exists_put {call : Call} (ok : call.apply builder = .ok builder') :
    ∃ keyword value, builder.put keyword value = .ok builder' := by
  cases call with
  | put keyword given =>
    cases given with
    | value value => exact ⟨keyword, value, ok⟩
    | other typeName => cases ok
  | items every each =>
    change builder.items every each = .ok builder' at ok
    rw [items_eq] at ok
    split at ok
    · cases ok
    · unfold putItems at ok
      split at ok
      · exact ⟨_, _, ok⟩
      · cases ok
  | types _ | property _ _ | required _ | additionalItems _ => exact ⟨_, _, ok⟩

/-! ## Runs of calls -/

/-- Makes calls one after the other, each of whose faults is caught. -/
def attempts (calls : List Call) : Edit Unit :=
  calls.forM fun call => tryCatch call.perform fun _ => pure ()

/-- The calls that go through when all are made one after the other. -/
def survivors : List Call → SchemaBuilder → List Call
  | [], _ => []
  | call :: rest, builder =>
    let later := survivors rest (call.after builder)
    match (call.perform.run.run builder).1 with
    | .ok _ => call :: later
    | .error _ => later

/-- What holds of all that a builder has. -/
def AllSound (builder : SchemaBuilder) : Prop :=
  ∀ keyword value, (keyword, value) ∈ builder.keywords → IsSound keyword value

/-- A call keeps what was checked. -/
theorem AllSound.after (sound : builder.AllSound) (call : Call) : (call.after builder).AllSound := by
  rw [Call.after_eq]
  cases done : call.apply builder with
  | error fault => exact sound
  | ok builder' =>
    obtain ⟨keyword, value, put⟩ := Call.exists_put done
    intro other entry mem
    change (other, entry) ∈ builder'.keywords at mem
    rw [put_keywords put] at mem
    rcases Members.mem_put mem with same | old
    · cases same
      exact isSound_of_check (put_check put)
    · exact sound other entry old

theorem survivors_ok {call : Call} {rest : List Call} {done : Unit}
    (performed : (call.perform.run.run builder).1 = .ok done) :
    survivors (call :: rest) builder = call :: survivors rest (call.after builder) := by
  rw [survivors, performed]

theorem survivors_error {call : Call} {rest : List Call} {fault : Fault}
    (performed : (call.perform.run.run builder).1 = .error fault) :
    survivors (call :: rest) builder = survivors rest (call.after builder) := by
  rw [survivors, performed]

/-- Caught or not, a call comes to the same builder. -/
theorem Call.run_attempt (call : Call) (builder : SchemaBuilder) :
    (tryCatch call.perform fun _ => pure ()).run.run builder = (.ok (), call.after builder) := by
  cases performed : (call.perform.run.run builder).1 with
  | ok done => exact run_tryCatch_ok (Prod.ext performed rfl)
  | error fault => exact run_tryCatch_error (Prod.ext performed rfl)

/-- Making all calls or those that go through comes to the same, and the latter are not stopped. -/
theorem run_survivors (calls : List Call) (builder : SchemaBuilder) :
    ∃ last, (attempts calls).run.run builder = (.ok (), last) ∧
      ((survivors calls builder).forM Call.perform).run.run builder = (.ok (), last) ∧
      (builder.AllSound → last.AllSound) := by
  induction calls generalizing builder with
  | nil => exact ⟨builder, rfl, rfl, id⟩
  | cons call rest ih =>
    obtain ⟨last, all, some, sound⟩ := ih (call.after builder)
    refine ⟨last, ?_, ?_, fun before => sound (before.after call)⟩
    · rw [← all]
      exact run_bind_ok (call.run_attempt builder)
    · rw [← some]
      cases performed : (call.perform.run.run builder).1 with
      | ok done =>
        have run : call.perform.run.run builder = (.ok done, call.after builder) :=
          Prod.ext performed rfl
        rw [survivors_ok performed]
        exact run_bind_ok run
      | error fault => rw [survivors_error performed, call.after_stopped performed]

/-- A builder after any calls is as after those of them that were not stopped, all that is in it was
checked, and neither way of setting items touches what the other one sets. -/
theorem run_attempts (location : Option Location) (draft : Draft) (calls : List Call) :
    ∃ last, (attempts calls).run.run (.empty location draft) = (.ok (), last) ∧
      ((survivors calls (.empty location draft)).forM Call.perform).run.run
        (.empty location draft) = (.ok (), last) ∧
      (∀ keyword value, (keyword, value) ∈ last.keywords → IsSound keyword value) ∧
      (∀ every each, ((Call.items every each).after last).additional? = last.additional?) ∧
      ∀ schema, ((Call.additionalItems schema).after last).form = last.form := by
  obtain ⟨last, all, some, sound⟩ := run_survivors calls (.empty location draft)
  exact ⟨last, all, some, sound nofun, Call.additional_items last, Call.form_additionalItems last⟩

example (schema other : Schema) :
    survivors [.items (some schema) none, .items none (some [other]), .additionalItems other]
      (.empty none .draft6) = [.items (some schema) none, .additionalItems other] := rfl

end SchemaBuilder

end JsonSchema
