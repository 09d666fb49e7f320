import JsonSchema.Proofs.Halting

/-!
# What compiling relies on

Compiling converts the values of keywords: counts become integers, divisors become fractions, texts
become searches. What the builder has checked makes each of these possible (`Schema.IsChecked`), but
for the fraction of a divisor, which an infinite number has not (`Schema.HasFiniteDivisors`). So a
schema all of whose schemas are checked and have finite divisors is compiled
(`CompiledSchema.exists_ofSchema`).

A computation completes if it stops for want of depth only (`Compile.Completes`). It leaves the places
that were in the table as they are, so a place that was taken before the keywords of its schema were
compiled is still there to be filled.
-/

namespace JsonSchema

/-! ## Kinds of values -/

/-- A value is of the form that its kind tells. -/
def KeywordKind.IsKindOf (kind : KeywordKind) (value : KeywordValue) : Prop :=
  match kind with
  | .string => ∃ json, value = .literal .string json
  | .number => ∃ json, value = .literal .number json
  | .boolean => ∃ json, value = .literal .boolean json
  | .jsonValue => ∃ json, value = .literal .any json
  | .stringSet => ∃ names, value = .stringSet names
  | .jsonArray => ∃ values, value = .jsonArray values
  | .schema => ∃ schema, value = .schema schema
  | .schemaList => ∃ schemas, value = .schemaList schemas
  | .schemaMap => ∃ schemas, value = .schemaMap schemas
  | .type => ∃ types, value = .types types
  | .limit => ∃ limit, value = .limit limit
  | .items => ∃ form additional, value = .items form additional
  | .dependencies => ∃ names schemas, value = .dependencies names schemas
  | .reference => ∃ ref uri target, value = .reference ref uri target

theorem KeywordValue.isKindOf_kind (value : KeywordValue) : value.kind.IsKindOf value := by
  cases value with
  | literal kind json => cases kind <;> exact ⟨json, rfl⟩
  | items form additional => exact ⟨form, additional, rfl⟩
  | dependencies names schemas => exact ⟨names, schemas, rfl⟩
  | reference ref uri target => exact ⟨ref, uri, target, rfl⟩
  | _ => exact ⟨_, rfl⟩

namespace SchemaBuilder

variable {keyword : Keyword} {value : KeywordValue}

theorem takesKind_of_check (ok : check keyword value = .ok ()) :
    takesKind keyword value.kind = true := by
  unfold check at ok
  split at ok
  · cases ok
  · next taken => simpa using taken

/-- A value that was checked is of the kind of its keyword, but that draft 3 has a flag for names. -/
theorem kind_of_check {assertion : Assertion} (ok : check assertion.keyword value = .ok ())
    (single : assertion ≠ .required) : assertion.keyword.kind.IsKindOf value := by
  have all : ∀ assertion ∈ Assertion.all, ∀ kind ∈ KeywordKind.all, assertion ≠ .required →
      takesKind assertion.keyword kind = true → kind = assertion.keyword.kind := by
    decide +kernel
  have same := all assertion (by cases assertion <;> decide) value.kind
    (by cases value.kind <;> decide) single (takesKind_of_check ok)
  exact same ▸ value.isKindOf_kind

theorem isCount_of_check (counts : Builtin.countKeys.contains keyword.key = true)
    (ok : check keyword value = .ok ()) : isCount (plain value) = true := by
  unfold check at ok
  split at ok
  · cases ok
  · split at ok
    · next count => exact count
    · cases ok

theorem exists_parse_of_checkPattern {key pattern : String}
    (ok : checkPattern key pattern = .ok ()) : ∃ regex, Pattern.Regex.parse pattern = .ok regex := by
  unfold checkPattern at ok
  split at ok
  · next regex parsed => exact ⟨regex, parsed⟩
  · cases ok
  · cases ok

theorem exists_parse_of_check {kind : LiteralKind} {pattern : String}
    (ok : check Builtin.pattern (.literal kind (.string pattern)) = .ok ()) :
    ∃ regex, Pattern.Regex.parse pattern = .ok regex := by
  have checked : (check Builtin.pattern (.literal kind (.string pattern))) =
      if !takesKind Builtin.pattern kind.keywordKind
      then .error (.wrongKind Builtin.pattern.key kind.keywordKind)
      else checkPattern Builtin.pattern.key pattern := by
    rfl
  rw [checked] at ok
  split at ok
  · cases ok
  · exact exists_parse_of_checkPattern ok

theorem forM_ok {α ε : Type} {check : α → Except ε Unit} {xs : List α}
    (ok : xs.forM check = .ok ()) {x : α} (mem : x ∈ xs) : check x = .ok () := by
  induction xs with
  | nil => cases mem
  | cons first rest ih =>
    obtain ⟨_, here, later⟩ := except_bind_ok ok
    rcases List.mem_cons.1 mem with rfl | mem
    · exact here
    · exact ih later mem

theorem exists_parse_of_check_names {schemas : List (String × Schema)}
    (ok : check Builtin.patternProperties (.schemaMap schemas) = .ok ()) {pattern : String}
    (mem : pattern ∈ Members.keys schemas) : ∃ regex, Pattern.Regex.parse pattern = .ok regex := by
  have each : (Members.keys schemas).forM (checkPattern Builtin.patternProperties.key) = .ok () := ok
  exact exists_parse_of_checkPattern (forM_ok each mem)

end SchemaBuilder

/-! ## Numbers -/

namespace Number

theorem exists_truncate {n : Number} (integral : n.isIntegral = true) :
    ∃ bound, n.truncate? = some bound := by
  cases n with
  | int n => exact ⟨n, rfl⟩
  | double x =>
    change Double.isIntegral x = true at integral
    unfold Double.isIntegral at integral
    split at integral
    · next q value => exact ⟨_, congrArg (Option.map _) value⟩
    · cases integral
  | decimal x =>
    change Decimal.isIntegral x = true at integral
    unfold Decimal.isIntegral at integral
    split at integral
    · next q value => exact ⟨_, congrArg (Option.map _) value⟩
    · cases integral

theorem exists_fraction {n : Number} (finite : n.isFinite = true) : ∃ r, n.fraction = .ok r := by
  cases n with
  | int n => exact ⟨n, rfl⟩
  | double x =>
    cases x with
    | finite negative significand exponent => exact ⟨_, rfl⟩
    | _ => cases finite
  | decimal x =>
    cases x with
    | finite negative coefficient exponent => exact ⟨_, rfl⟩
    | _ => cases finite

end Number

/-! ## Checked schemas -/

/-- What compiling relies on in a schema: it has a place, every keyword is one of the drafts with a
value that the builder has checked, patterns and names of formats are texts, and references are
bound. -/
structure Schema.IsChecked (graph : SchemaGraph) (schema : Schema) : Prop where
  located : ∀ location, schema.location? = some location → ∃ uri, location.absoluteUri = .ok uri
  known : ∀ keyword value, (keyword, value) ∈ schema.keywords → keyword ∈ Builtin.all
  checked : ∀ keyword value, (keyword, value) ∈ schema.keywords →
    SchemaBuilder.check keyword value = .ok ()
  texts : ∀ keyword kind json, (keyword, .literal kind json) ∈ schema.keywords →
    keyword = Builtin.pattern ∨ keyword = Builtin.format → ∃ text, json = .string text
  bound : ∀ keyword ref uri target, (keyword, .reference ref uri target) ∈ schema.keywords →
    (graph.schema? target).isSome

/-- The divisors of a schema are finite. -/
def Schema.HasFiniteDivisors (schema : Schema) : Prop :=
  ∀ keyword kind n, (keyword, .literal kind (.number n)) ∈ schema.keywords →
    keyword = Builtin.multipleOf ∨ keyword = Builtin.divisibleBy → n.isFinite = true

/-- A compiler has a search for every regular expression. -/
def Compiler.Searches (compiler : Compiler) : Prop :=
  ∀ pattern regex, Pattern.Regex.parse pattern = .ok regex →
    ∃ search, compiler.search pattern = .ok search

/-! ## Computations that complete -/

namespace Compile

variable {α β : Type} {s : Compilation}

/-- A table is later than another one if it has more places behind those. -/
instance : Preorder Compilation where
  le s s' := s.validators.toList <+: s'.validators.toList
  le_refl _ := List.prefix_rfl
  le_trans _ _ _ := List.IsPrefix.trans

/-- A stop for want of depth. -/
def Exhausts (_ : Compilation) (fault : Fault) (_ : Compilation) : Prop :=
  fault = .exhausted

instance : Descending Exhausts where
  down _ h := h

/-- A computation ends with `Q` and leaves the places that are in the table as they are, or it stops
for want of depth. -/
abbrev Completes (act : Compile α) (s : Compilation) (Q : α → Prop) : Prop :=
  After id Exhausts act s fun a _ => Q a

section Rules

variable {Q : α → Prop} {R : β → Prop}

theorem Completes.bind {act : Compile α} {next : α → Compile β} (first : Completes act s Q)
    (rest : ∀ a s', Q a → Completes (next a) s' R) : Completes (act >>= next) s R :=
  after_bind first fun a s' _ holds => rest a s' holds

theorem Completes.weaken {act : Compile α} {Q' : α → Prop} (h : Completes act s Q)
    (weaker : ∀ a, Q a → Q' a) : Completes act s Q' :=
  after_mono h fun a _ _ holds => weaker a holds

theorem completes_pure {a : α} (h : Q a) : Completes (pure a) s Q :=
  after_pure h

/-- The end of compiling a keyword. -/
theorem completes_end (a : α) : Completes (pure a) s fun _ => True :=
  after_pure trivial

theorem Completes.map {act : Compile α} {Q : α → Prop} (f : α → β) (h : Completes act s Q) :
    Completes (f <$> act) s fun _ => True :=
  after_map (h.weaken fun _ _ => trivial)

theorem completes_check {x : Except Fault α} {a : α} (ok : x = .ok a) :
    Completes (check x) s fun _ => True := by
  rw [ok]
  exact completes_end a

theorem completes_mapM {Q : α → β → Prop} {f : α → Compile β} {xs : List α}
    (each : ∀ x ∈ xs, ∀ s, Completes (f x) s (Q x)) :
    Completes (xs.mapM f) s (List.Forall₂ Q xs) :=
  after_mapM (fun _ _ _ _ _ h => h) xs fun x mem s' _ => each x mem s'

end Rules

variable {compiler : Compiler} {graph : SchemaGraph} {member : Schema → Prop}
  {recur : SchemaCompiler}

/-- A compiling function completes on every schema of some. -/
def CompletesOn (recur : SchemaCompiler) (member : Schema → Prop) : Prop :=
  ∀ schema place s, member schema → Completes (recur schema place) s fun _ => True

theorem completes_search {pattern : String}
    (found : ∃ search, compiler.search pattern = .ok search) :
    Completes (searchOf compiler pattern) s fun _ => True := by
  obtain ⟨search, ok⟩ := found
  have mapped : (compiler.search pattern).mapError Fault.notAPattern = .ok search := by
    rw [ok]
    rfl
  exact completes_check mapped

/-! ### The families of keywords -/

section Families

variable {place : String} (recurs : CompletesOn recur member)

include recurs

theorem completes_list {schemas : List Schema} (inside : ∀ schema ∈ schemas, member schema) :
    Completes (list recur schemas place) s fun _ => True := by
  refine (completes_mapM (Q := fun _ _ => True) ?_).weaken fun _ _ => trivial
  rintro ⟨schema, position⟩ mem s'
  exact recurs _ _ _ (inside schema (List.fst_mem_of_mem_zipIdx mem))

theorem completes_map {schemas : List (String × Schema)}
    (inside : ∀ entry ∈ schemas, member entry.2) :
    Completes (map recur schemas place) s
      (List.Forall₂ (fun entry entry' => entry'.1 = entry.1) schemas) := by
  refine completes_mapM ?_
  rintro ⟨name, schema⟩ mem s'
  exact (recurs _ _ _ (inside _ mem)).bind fun id s'' _ => completes_pure rfl

theorem completes_ofList {schemas : List Schema} (inside : ∀ schema ∈ schemas, member schema)
    (rule : List ValidatorId → Rule) :
    Completes (do return some (rule (← list recur schemas place))) s fun _ => True :=
  (completes_list recurs inside).bind fun _ _ _ => completes_end _

theorem completes_ofSchema {schema : Schema} (inside : member schema)
    (rule : ValidatorId → Rule) :
    Completes (do return some (rule (← recur schema place))) s fun _ => True :=
  (recurs _ _ _ inside).bind fun _ _ _ => completes_end _

theorem completes_ofMap {schemas : List (String × Schema)}
    (inside : ∀ entry ∈ schemas, member entry.2) (rule : List (String × ValidatorId) → Rule) :
    Completes (do return some (rule (← map recur schemas place))) s fun _ => True :=
  (completes_map recurs inside).bind fun _ _ _ => completes_end _

theorem completes_ref {target : HandleId} {uri : String} {schema : Schema}
    (bound : graph.schema? target = some schema) (inside : member schema) :
    Completes (do
      let schema ← check (graph.target target)
      return some (Rule.reference (← recur schema uri))) s fun _ => True := by
  have found : graph.target target = .ok schema := by
    unfold SchemaGraph.target
    rw [bound]
    rfl
  rw [found]
  exact completes_ofSchema recurs inside .reference

theorem completes_patterns {schemas : List (String × Schema)}
    (inside : ∀ entry ∈ schemas, member entry.2)
    (searches : ∀ pattern ∈ Members.keys schemas, ∃ search, compiler.search pattern = .ok search) :
    Completes (do
      let compiled ← map recur schemas place
      let searches ← compiled.mapM fun (pattern, id) => do return (← searchOf compiler pattern, id)
      return some (Rule.patternProperties searches)) s fun _ => True := by
  refine (completes_map recurs inside).bind fun compiled s₁ named => ?_
  refine Completes.bind (Q := fun _ => True) ?_ fun _ _ _ => completes_end _
  refine (completes_mapM (Q := fun _ _ => True) ?_).weaken fun _ _ => trivial
  rintro ⟨pattern, id⟩ mem s₂
  obtain ⟨entry, listed, same⟩ := exists_of_forall₂ named.flip mem
  have known : pattern ∈ Members.keys schemas := List.mem_map.2 ⟨entry, listed, same.symm⟩
  exact (completes_search (searches pattern known)).bind fun _ _ _ => completes_end _

theorem completes_additional {owner schema : Schema} (inside : member schema)
    (searches : ∀ pattern ∈ namesUnder owner Builtin.patternProperties,
      ∃ search, compiler.search pattern = .ok search) :
    Completes (additionalRule compiler recur owner schema place) s fun _ => True := by
  unfold additionalRule
  split
  · exact completes_end _
  · refine (recurs _ _ _ inside).bind fun _ s₁ _ => ?_
    refine Completes.bind (Q := fun _ => True) ?_ fun _ _ _ => completes_end _
    refine (completes_mapM (Q := fun _ _ => True) ?_).weaken fun _ _ => trivial
    exact fun pattern mem s₂ => completes_search (searches pattern mem)

theorem completes_items {form : ItemsForm} {additional : Option Schema}
    (inside : ∀ schema ∈ form.schemas ++ additional.toList, member schema) :
    Completes (itemsRule recur form additional place) s fun _ => True := by
  have surplus : ∀ {every : Option ValidatorId} {each : Option (List ValidatorId)} {forbid : Bool}
      {there : String} {s : Compilation}, Completes (do
        let more ← optional recur (additional.filter (!·.isAlwaysInvalid)) there
        return some (Rule.items every each more forbid there)) s fun _ => True := by
    intro every each forbid there s
    refine Completes.bind (Q := fun _ => True) ?_ fun _ _ _ => completes_end _
    unfold optional
    split
    · next schema kept =>
      have own := (Option.filter_eq_some_iff.1 kept).1
      have owned := inside schema (List.mem_append_right _ (Option.mem_toList.2 own))
      exact (recurs _ _ _ owned).bind fun _ _ _ => completes_end _
    · exact completes_end _
  unfold itemsRule
  cases form with
  | absent => exact surplus
  | every schema =>
    have owned := inside schema (List.mem_append_left _ (List.mem_singleton_self _))
    exact ((recurs _ _ _ owned).map some).bind fun _ _ _ => surplus
  | each schemas =>
    have owned : ∀ schema ∈ schemas, member schema :=
      fun schema mem => inside schema (List.mem_append_left _ mem)
    exact (completes_end none).bind fun _ _ _ =>
      ((completes_list recurs owned).map some).bind fun _ _ _ => surplus

end Families

theorem completes_count {key : String} {rule : Int → Rule} {kind : LiteralKind} {json : Json}
    (count : SchemaBuilder.isCount json = true) :
    Completes (countRule key rule (.literal kind json)) s fun _ => True := by
  unfold SchemaBuilder.isCount at count
  split at count
  · next n =>
    obtain ⟨bound, whole⟩ := Number.exists_truncate (Bool.and_eq_true_iff.1 count).1
    unfold countRule
    dsimp only
    rw [whole]
    exact completes_end _
  · cases count

theorem completes_multiple {n : Number} (finite : n.isFinite = true) :
    Completes (do
      return some (Rule.multipleOf (.number n) (← check (n.fraction.mapError .noFraction)))) s
      fun _ => True := by
  obtain ⟨r, ok⟩ := Number.exists_fraction finite
  rw [ok]
  exact completes_end _

theorem exists_search (searches : compiler.Searches) {pattern : String}
    (parsed : ∃ regex, Pattern.Regex.parse pattern = .ok regex) :
    ∃ search, compiler.search pattern = .ok search := by
  obtain ⟨regex, ok⟩ := parsed
  exact searches pattern regex ok

/-- The patterns in the names of a checked schema have searches. -/
theorem exists_search_under (searches : compiler.Searches) {owner : Schema}
    (checked : owner.IsChecked graph) {pattern : String}
    (mem : pattern ∈ namesUnder owner Builtin.patternProperties) :
    ∃ search, compiler.search pattern = .ok search := by
  unfold namesUnder at mem
  split at mem
  · next schemas found =>
    have ok := checked.checked _ _ (Members.mem_of_lookup found)
    exact exists_search searches (SchemaBuilder.exists_parse_of_check_names ok mem)
  · cases mem

/-- Compiling a keyword of a checked schema with finite divisors completes, if compiling the schemas
in it does. -/
theorem completes_ruleOf (recurs : CompletesOn recur member) (searches : compiler.Searches)
    {owner : Schema} (checked : owner.IsChecked graph) (finite : owner.HasFiniteDivisors)
    {assertion : Assertion} {value : KeywordValue}
    (mem : (assertion.keyword, value) ∈ owner.keywords)
    (inside : ∀ use schema, (use, schema) ∈ Meaning.uses graph assertion value → member schema)
    (place : String) :
    Completes (ruleOf compiler graph recur owner assertion value place) s fun _ => True := by
  have ok := checked.checked _ _ mem
  have form := SchemaBuilder.kind_of_check ok
  cases assertion with
  | type | disallow =>
    obtain ⟨types, rfl⟩ := form nofun
    exact completes_end _
  | enum =>
    obtain ⟨values, rfl⟩ := form nofun
    exact completes_end _
  | const =>
    obtain ⟨json, rfl⟩ := form nofun
    exact completes_end _
  | allOf | extending | anyOf =>
    obtain ⟨schemas, rfl⟩ := form nofun
    exact completes_ofList recurs (fun schema mem => inside .beside _ (List.mem_map_of_mem mem)) _
  | oneOf =>
    obtain ⟨schemas, rfl⟩ := form nofun
    exact completes_ofList recurs (fun schema mem => inside .judged _ (List.mem_map_of_mem mem)) _
  | not =>
    obtain ⟨schema, rfl⟩ := form nofun
    exact completes_ofSchema recurs (inside .judged _ (List.mem_singleton_self _)) _
  | ref =>
    obtain ⟨ref, uri, target, rfl⟩ := form nofun
    obtain ⟨schema, bound⟩ := Option.isSome_iff_exists.1 (checked.bound _ _ _ _ mem)
    refine completes_ref recurs bound (inside .target _ ?_)
    exact List.mem_map_of_mem (Option.mem_toList.2 bound)
  | format =>
    obtain ⟨json, rfl⟩ := form nofun
    obtain ⟨name, rfl⟩ := checked.texts _ _ _ mem (.inr rfl)
    exact completes_end _
  | multipleOf =>
    obtain ⟨json, rfl⟩ := form nofun
    have divisor := Load.isDivisor_of_check (.inl rfl) ok
    cases json with
    | number n => exact completes_multiple (finite _ _ _ mem (.inl rfl))
    | _ => cases divisor
  | divisibleBy =>
    obtain ⟨json, rfl⟩ := form nofun
    have divisor := Load.isDivisor_of_check (.inr rfl) ok
    cases json with
    | number n => exact completes_multiple (finite _ _ _ mem (.inr rfl))
    | _ => cases divisor
  | minimum | maximum =>
    obtain ⟨limit, rfl⟩ := form nofun
    exact completes_end _
  | minLength | maxLength | minItems | maxItems | minProperties | maxProperties =>
    obtain ⟨json, rfl⟩ := form nofun
    exact completes_count (SchemaBuilder.isCount_of_check (by decide) ok)
  | pattern =>
    obtain ⟨json, rfl⟩ := form nofun
    obtain ⟨pattern, rfl⟩ := checked.texts _ _ _ mem (.inl rfl)
    have found := exists_search searches (SchemaBuilder.exists_parse_of_check ok)
    exact (completes_search found).bind fun _ _ _ => completes_end _
  | items =>
    obtain ⟨form, additional, rfl⟩ := form nofun
    exact completes_items recurs fun schema mem => inside .inside _ (List.mem_map_of_mem mem)
  | uniqueItems =>
    obtain ⟨json, rfl⟩ := form nofun
    exact completes_end _
  | contains | propertyNames =>
    obtain ⟨schema, rfl⟩ := form nofun
    exact completes_ofSchema recurs (inside .inside _ (List.mem_singleton_self _)) _
  | properties =>
    obtain ⟨schemas, rfl⟩ := form nofun
    exact completes_ofMap recurs
      (fun entry mem => inside .inside _ (List.mem_map.2 ⟨entry, mem, rfl⟩)) _
  | patternProperties =>
    obtain ⟨schemas, rfl⟩ := form nofun
    refine completes_patterns recurs
      (fun entry mem => inside .inside _ (List.mem_map.2 ⟨entry, mem, rfl⟩)) fun pattern known => ?_
    exact exists_search searches (SchemaBuilder.exists_parse_of_check_names ok known)
  | additionalProperties =>
    obtain ⟨schema, rfl⟩ := form nofun
    exact completes_additional recurs (inside .inside _ (List.mem_singleton_self _))
      fun pattern => exists_search_under searches checked
  | required =>
    cases value <;> exact completes_end _
  | dependencies =>
    obtain ⟨names, schemas, rfl⟩ := form nofun
    exact completes_ofMap recurs
      (fun entry mem => inside .beside _ (List.mem_map.2 ⟨entry, mem, rfl⟩)) _

theorem completes_checkOf (recurs : CompletesOn recur member) (searches : compiler.Searches)
    {owner : Schema} (checked : owner.IsChecked graph) (finite : owner.HasFiniteDivisors)
    (closed : ∀ use schema, owner.Uses graph use schema → member schema) {keyword : Keyword}
    {value : KeywordValue} (mem : (keyword, value) ∈ owner.keywords) (location : String) :
    Completes (checkOf compiler graph recur owner location keyword value) s fun _ => True := by
  unfold checkOf
  split
  · exact completes_end _
  · next assertion known =>
    have own := Load.assertion_keyword (checked.known _ _ mem) known
    have inside : ∀ use schema, (use, schema) ∈ Meaning.uses graph assertion value →
        member schema :=
      fun use schema listed => closed use schema ⟨keyword, assertion, value, ⟨mem, known⟩, listed⟩
    rw [← own] at mem
    exact (completes_ruleOf recurs searches checked finite mem inside _).bind fun _ _ _ =>
      completes_end _

/-! ### The places of schemas -/

/-- Filling a place without checks. -/
theorem run_fill {location : String} {i : Nat} (found : s.validators[i]? = some (.unfilled location))
    (checks : List Check) : (fill ⟨i⟩ checks).run.run s =
      (.ok (), { s with validators := s.validators.set! i { location, checks := some checks } }) := by
  unfold fill
  rw [run_bind_ok (show (get : Compile Compilation).run.run s = (.ok s, s) from rfl)]
  dsimp only
  rw [found]
  rfl

/-- What stands behind the places of a table may be filled. -/
theorem le_set {s' : Compilation} (more : s ≤ s') (validator : Validator) :
    s ≤ { s' with validators := s'.validators.set! s.validators.size validator } := by
  obtain ⟨rest, same⟩ := more
  change s.validators.toList <+: (s'.validators.set! s.validators.size validator).toList
  rw [Array.set!_eq_setIfInBounds, Array.toList_setIfInBounds, ← same, ← Array.length_toList,
    List.set_append_right _ _ le_rfl]
  exact List.prefix_append _ _

/-- Entering a schema, working out its checks and filling its place: the place is still without
checks when it is filled. -/
theorem completes_bracket (schema : Schema) (location : String) (work : Compile (List Check))
    (completes : ∀ s, Completes work s fun _ => True) :
    Completes (do
      let id ← enter schema location
      let checks ← work
      fill id checks
      return id) s fun _ => True := by
  obtain ⟨s₁, entered, pushed⟩ : ∃ s₁, (enter schema location).run.run s =
      (.ok ⟨s.validators.size⟩, s₁) ∧ s₁.validators = s.validators.push (.unfilled location) := by
    cases schema <;> exact ⟨_, rfl, rfl⟩
  have up₁ : s ≤ s₁ := by
    change s.validators.toList <+: s₁.validators.toList
    rw [pushed, Array.toList_push]
    exact List.prefix_append _ _
  cases run : work.run.run s₁ with
  | mk result s₂ =>
    cases result with
    | error fault =>
      refine after_of_error (e := fault) (s := s₂) ?_ ((completes s₁).of_error run)
      rw [id_eq, run_bind_ok entered, run_bind_error run]
    | ok checks =>
      obtain ⟨later, up₂, same, -⟩ := (completes s₁).of_ok run
      rw [← same, id_eq] at run
      clear same
      have found : later.validators[s.validators.size]? = some (.unfilled location) := by
        have here : s₁.validators.toList[s.validators.size]? = some (.unfilled location) := by
          rw [Array.getElem?_toList, pushed, Array.getElem?_push_size]
        rw [← Array.getElem?_toList]
        exact getElem?_mono up₂ here
      have filled := run_fill found checks
      have up := le_set (le_trans up₁ up₂) { location, checks := some checks }
      refine after_of_ok (a := ⟨s.validators.size⟩) ?_ up rfl trivial
      rw [id_eq, run_bind_ok entered, run_bind_ok run, run_bind_ok filled]
      rfl

/-- Compiling a checked schema with finite divisors completes, if compiling the schemas in it
does. -/
theorem completes_schemaWith (recurs : CompletesOn recur member) (searches : compiler.Searches)
    {schema : Schema} (checked : schema.IsChecked graph) (finite : schema.HasFiniteDivisors)
    (closed : ∀ use other, schema.Uses graph use other → member other) (fallback : String) :
    Completes (schemaWith compiler graph recur schema fallback) s fun _ => True := by
  have work : ∀ location s, Completes (checksOf compiler graph recur schema location) s
      fun _ => True := by
    intro location s
    unfold checksOf
    cases schema.isAlwaysInvalid with
    | true => exact completes_end _
    | false =>
      exact Completes.bind (completes_mapM (Q := fun _ _ => True) fun entry mem _ =>
        completes_checkOf recurs searches checked finite closed mem location) fun _ _ _ =>
          completes_end _
  have inner : ∀ location s, Completes (placeAt compiler graph recur schema location) s
      fun _ => True := fun location s =>
    completes_bracket schema location _ fun s => work location s
  rw [schemaWith_eq]
  refine Completes.bind (Q := fun _ => True) ?_ fun found s₁ _ => ?_
  · unfold known?
    split
    · exact after_get_bind (completes_end _)
    · exact completes_end _
  · cases found with
    | some id => exact completes_end id
    | none =>
      dsimp only
      split
      · next location here =>
        obtain ⟨uri, ok⟩ := checked.located location here
        rw [ok]
        exact inner uri s₁
      · exact inner fallback s₁

/-- Compiling completes on schemas that are checked, have finite divisors and are closed under
use. -/
theorem completes_schemaWithin (searches : compiler.Searches)
    (checked : ∀ schema, member schema → schema.IsChecked graph)
    (finite : ∀ schema, member schema → schema.HasFiniteDivisors)
    (closed : ∀ owner, member owner → ∀ use schema, owner.Uses graph use schema → member schema)
    (depth : Nat) : CompletesOn (schemaWithin compiler graph depth) member := by
  induction depth with
  | zero => exact fun schema place s owned => after_throw rfl
  | succ depth ih =>
    intro schema place s owned
    exact completes_schemaWith ih searches (checked schema owned) (finite schema owned)
      (closed schema owned) place

end Compile

/-- A schema is compiled, if the schemas that it reaches are checked and have finite divisors. -/
theorem CompiledSchema.exists_ofSchema {compiler : Compiler} {graph : SchemaGraph}
    {member : Schema → Prop} (apart : graph.TellsApart member) (searches : compiler.Searches)
    (checked : ∀ schema, member schema → schema.IsChecked graph)
    (finite : ∀ schema, member schema → schema.HasFiniteDivisors) {schema : Schema}
    (owned : member schema) : ∃ compiled, ofSchema compiler graph schema = .ok compiled := by
  have completes := Compile.completes_schemaWithin searches checked finite apart.closed
    (graph.nextNode + 2) schema "#" .empty owned
  have lasts := (Compile.lasts_schema compiler apart owned 0).ends
  unfold ofSchema
  cases run : (Compile.schema compiler graph schema).run.run .empty with
  | mk result state =>
    cases result with
    | ok id => exact ⟨_, rfl⟩
    | error fault =>
      have exhausted : fault = .exhausted := completes.of_error run
      exact absurd exhausted (lasts.of_error run)

end JsonSchema
