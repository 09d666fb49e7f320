import JsonSchema.Proofs.Evaluation
import JsonSchema.Proofs.Standing

/-!
# Loaded schemas can be compiled

Compiling relies on keyword values that fit their assertions, and on nodes that are told apart by
their identities. Both hold of all that a session without errors has made (`Track.orderly`): a
keyword was read from a member with a value of the right shape, and the builder has checked the
divisors. A divisor is positive as a number, and so is the fraction that its shortest text stands
for (`Number.atMost_zero`).
-/

namespace JsonSchema

/-! ## Divisors -/

theorem tenToThe_ne_zero (exponent : Int) : tenToThe exponent ≠ 0 := by
  have power : ∀ n : Nat, ((Nat.pow 10 n : Nat) : Rat) ≠ 0 := fun n =>
    Nat.cast_ne_zero.2 (Nat.pos_iff_ne_zero.1 (Nat.pow_pos (by decide)))
  unfold tenToThe
  split
  · exact power _
  · exact one_div_ne_zero (power _)

namespace Double

theorem dropZeros_ne_zero (fuel : Nat) {coefficient : Nat} (exponent : Int)
    (nonzero : coefficient ≠ 0) : (dropZeros fuel coefficient exponent).1 ≠ 0 := by
  induction fuel generalizing coefficient exponent with
  | zero => exact nonzero
  | succ fuel ih =>
    rw [dropZeros]
    split
    · exact ih _ (by omega)
    · exact nonzero

theorem nearestOnGrid_accepted {q : Rat} {spacing : Int} {accepts : Nat → Int → Bool}
    {coefficient : Nat} {e : Int} (found : nearestOnGrid? q spacing accepts = some (coefficient, e)) :
    accepts coefficient e = true := by
  unfold nearestOnGrid? at found
  dsimp only at found
  split at found
  · next taken _ => cases found; exact taken
  · next _ taken => cases found; exact taken
  · cases found
  · next below above =>
    split at found
    · cases found; exact below
    · cases found; exact above

/-- The shortest decimal of a double that is not zero is not zero. -/
theorem shortest_ne_zero {significand : Nat} (exponent : Int) (nonzero : significand ≠ 0) :
    (shortest significand exponent).1 ≠ 0 := by
  unfold shortest
  rw [if_neg nonzero]
  dsimp only
  refine dropZeros_ne_zero _ _ ?_
  generalize searched : (List.range 17).findSome? _ = found
  cases found with
  | none => exact nonzero
  | some pair =>
    obtain ⟨coefficient, e⟩ := pair
    obtain ⟨k, _, taken⟩ := List.exists_of_findSome?_eq_some searched
    have reads := of_decide_eq_true (nearestOnGrid_accepted taken)
    rintro (rfl : coefficient = 0)
    unfold ofDecimal at reads
    rw [if_pos (Or.inl rfl)] at reads
    cases reads
    exact nonzero rfl

end Double

/-- A divisor whose fraction is zero is zero. -/
theorem Number.atMost_zero {n : Number} (zero : n.fraction = .ok 0) : n.atMost (.int 0) = true := by
  have atPlace : n.place? = some (.rational 0) → n.atMost (.int 0) = true := by
    intro here
    have equal : n.equals (.int 0) = true := by
      unfold equals
      rw [here]
      exact decide_eq_true rfl
    unfold atMost
    rw [equal, Bool.or_true]
  have signed : ∀ {negative : Bool} {m : Rat}, (if negative = true then -m else m) = 0 → m = 0 := by
    intro negative m same
    split at same
    · exact neg_eq_zero.1 same
    · exact same
  refine atPlace ?_
  unfold fraction at zero
  cases n with
  | int n =>
    change some (Extended.rational n) = _
    rw [Except.ok.inj zero]
  | double x =>
    cases x with
    | finite negative significand exponent =>
      have none : significand = 0 := by
        by_contra nonzero
        have product := signed (Except.ok.inj zero)
        rcases mul_eq_zero.1 product with coefficient | power
        · exact Double.shortest_ne_zero exponent nonzero (Nat.cast_eq_zero.1 coefficient)
        · exact tenToThe_ne_zero _ power
      subst none
      have magnitude : Double.magnitude 0 exponent = 0 := by
        have none : (scaleByTwo 0 1 exponent).1 = 0 := by
          unfold scaleByTwo
          split
          · exact Nat.zero_mul _
          · rfl
        change ((scaleByTwo 0 1 exponent).1 : Rat) / ((scaleByTwo 0 1 exponent).2 : Rat) = 0
        rw [none, Nat.cast_zero, zero_div]
      change some (Extended.rational (if negative = true then -Double.magnitude 0 exponent
        else Double.magnitude 0 exponent)) = _
      rw [magnitude, neg_zero, ite_self]
    | _ => cases zero
  | decimal x =>
    cases x with
    | finite negative coefficient exponent =>
      change some (Extended.rational _) = _
      rw [Except.ok.inj zero]
    | infinite negative => cases zero

/-! ## Uses -/

/-- What an assertion uses is in the value of its keyword, or what its reference is bound to. -/
theorem Meaning.of_uses {graph : SchemaGraph} {assertion : Assertion} {value : KeywordValue}
    {use : Use} {schema : Schema} (listed : (use, schema) ∈ uses graph assertion value) :
    schema ∈ value.schemas ∨ ∃ target, value.target? = some target ∧
      graph.schema? target = some schema := by
  have named : ∀ {schemas : List (String × Schema)} {use' : Use},
      (use, schema) ∈ schemas.map (fun entry => (use', entry.2)) →
        schema ∈ schemas.map Prod.snd := by
    intro schemas use' mem
    obtain ⟨entry, inside, same⟩ := List.mem_map.1 mem
    exact List.mem_map.2 ⟨entry, inside, congrArg Prod.snd same⟩
  unfold uses at listed
  split at listed
  case h_6 =>
    obtain ⟨other, bound, same⟩ := List.mem_map.1 listed
    cases same
    exact .inr ⟨_, rfl, Option.mem_toList.1 bound⟩
  all_goals first
    | exact .inl (Compile.mem_uses_list listed).2
    | exact .inl (named listed)
    | exact absurd listed List.not_mem_nil

namespace Load

/-! ## Values that fit -/

theorem assertion_keyword {keyword : Keyword} {assertion : Assertion} (known : keyword ∈ Builtin.all)
    (same : Assertion.ofKey? keyword.key = some assertion) : assertion.keyword = keyword := by
  have all : ∀ keyword ∈ Builtin.all, ∀ assertion ∈ Assertion.ofKey? keyword.key,
      assertion.keyword = keyword := by
    decide +kernel
  exact all keyword known assertion same

theorem isDivisor_of_check {keyword : Keyword} {value : KeywordValue}
    (known : keyword = Builtin.multipleOf ∨ keyword = Builtin.divisibleBy)
    (ok : SchemaBuilder.check keyword value = .ok ()) :
    SchemaBuilder.isDivisor (SchemaBuilder.plain value) = true := by
  have counts : Builtin.countKeys.contains keyword.key ≠ true := by
    rcases known with rfl | rfl <;> decide
  have divides : (keyword = Builtin.multipleOf || keyword = Builtin.divisibleBy) = true := by
    simpa using known
  unfold SchemaBuilder.check at ok
  split at ok
  · cases ok
  · split at ok
    · next divisor => exact divisor
    · cases ok

/-- A keyword of a draft whose value was loaded holds a value that its assertion works with. -/
theorem ReadsMember.fits {sub : Sub} {draft : Draft} {member : Keyword × Json}
    {value : KeywordValue} {assertion : Assertion} (same : assertion.keyword = member.1)
    (plain : (member.1.variantFor draft).kind ≠ .limit)
    (reads : ReadsMember sub draft member (member.1, value)) : Meaning.Fits assertion value := by
  obtain ⟨_, checked, reads⟩ := reads
  dsimp only at checked reads
  have divides : member.1 = Builtin.multipleOf ∨ member.1 = Builtin.divisibleBy →
      ∀ kind n, value = .literal kind (.number n) → n.fraction ≠ .ok 0 := by
    rintro known kind n rfl zero
    have divisor : (!n.atMost (.int 0)) = true := isDivisor_of_check known checked
    rw [Number.atMost_zero zero] at divisor
    cases divisor
  cases assertion with
  | type | disallow =>
    have kind : (member.1.variantFor draft).kind = .type := by
      rw [← same]
      cases draft <;> rfl
    rw [kind] at reads
    unfold ReadsValue digested at reads
    obtain ⟨types, rfl⟩ := types_ok reads
    trivial
  | minimum | maximum => exact absurd (by rw [← same]; cases draft <;> rfl) plain
  | multipleOf =>
    unfold Meaning.Fits
    split <;> first | trivial | exact divides (.inl same.symm) _ _ rfl
  | divisibleBy =>
    unfold Meaning.Fits
    split <;> first | trivial | exact divides (.inr same.symm) _ _ rfl
  | _ =>
    unfold Meaning.Fits
    trivial

theorem present_eq {value : Option Json} {bound : Json} (found : Digest.present value = some bound) :
    value = some bound :=
  (Option.filter_eq_some_iff.1 found).1

/-- The bounds of a limit are numbers, if the exclusive one is since draft 6. -/
theorem isNumeric_of_limit {key exclusiveKey : String} {bound exclusive : Option Json}
    {draft : Draft} {limit : Limit}
    (ok : Digest.limit key exclusiveKey bound exclusive draft = .ok (some limit))
    (shaped : draft = .draft6 → ∀ value, exclusive = some value → value.shape? = some .number) :
    limit.IsNumeric := by
  unfold Digest.limit at ok
  dsimp only at ok
  split at ok
  · cases ok
  · next numeric =>
    have number : ∀ value, Digest.present bound = some value → value.plainNumber?.isSome := by
      intro value here
      rw [here] at numeric
      cases value with
      | number n => rfl
      | _ => cases numeric
    have flagged : ∀ {exclusive}, Digest.flaggedLimit key exclusiveKey (Digest.present bound)
        exclusive = .ok (some limit) → limit.IsNumeric := by
      intro exclusive ok
      unfold Digest.flaggedLimit at ok
      split at ok
      · cases ok
      · cases ok
      · obtain ⟨made, make, same⟩ := except_bind_ok ok
        cases same
        obtain rfl := make_ok make
        rintro value (here | here)
        · exact number value here
        · cases here
    split at ok
    · unfold Digest.twoLimits at ok
      split at ok
      · cases ok
      · obtain ⟨made, make, same⟩ := except_bind_ok ok
        cases same
        obtain rfl := make_ok make
        rintro value (here | here)
        · exact number value here
        · have shape := shaped rfl value (present_eq here)
          cases value with
          | number n => rfl
          | _ => cases shape
    · exact flagged ok

theorem exclusive_number {draft : Draft} {members : List (String × Json)} {exclusive : Keyword}
    (shaped : ∀ member ∈ members, isKeyword draft member.1 = true → IsAccepted draft member)
    (known : exclusive = Builtin.exclusiveMinimum ∨ exclusive = Builtin.exclusiveMaximum)
    (since : draft = .draft6) {value : Json} (found : members.lookup exclusive.key = some value) :
    value.shape? = some .number := by
  subst since
  have here : Registry.default.find? exclusive.key (some .draft6) = some exclusive := by
    rcases known with rfl | rfl <;> decide +kernel
  obtain ⟨keyword, shape, found', shaped, accepted⟩ :=
    shaped _ (Members.mem_of_lookup found) (by unfold isKeyword; rw [here]; rfl)
  rw [here] at found'
  cases found'
  have only : (exclusive.variantFor .draft6).expects = [.number] := by
    rcases known with rfl | rfl <;> decide
  rw [only] at accepted
  rw [← List.mem_singleton.1 accepted]
  exact shaped

/-- The limit of a keyword for bounds fits it. -/
theorem fits_limitEntries {draft : Draft} {members : List (String × Json)}
    {bound exclusive keyword : Keyword} {value : KeywordValue} {assertion : Assertion}
    (shaped : ∀ member ∈ members, isKeyword draft member.1 = true → IsAccepted draft member)
    (known : exclusive = Builtin.exclusiveMinimum ∨ exclusive = Builtin.exclusiveMaximum)
    (limits : ∀ assertion, Assertion.ofKey? bound.key = some assertion →
      assertion.keyword = bound ∧ (assertion = .minimum ∨ assertion = .maximum))
    (mem : (keyword, value) ∈ limitEntries draft members bound exclusive)
    (same : Assertion.ofKey? keyword.key = some assertion) :
    assertion.keyword = keyword ∧ Meaning.Fits assertion value := by
  unfold limitEntries at mem
  split at mem
  · next limit ok =>
    cases List.mem_singleton.1 mem
    have numeric := isNumeric_of_limit ok (fun since value => exclusive_number shaped known since)
    obtain ⟨own, rfl | rfl⟩ := limits assertion same
    · exact ⟨own, numeric⟩
    · exact ⟨own, numeric⟩
  · cases mem

/-- A loaded object has keywords of the drafts, whose values fit their assertions. -/
theorem Reads.fits {sub : Sub} {draft : Draft} {members : List (String × Json)}
    {keywords : List (Keyword × KeywordValue)} {keyword : Keyword} {value : KeywordValue}
    {assertion : Assertion} (reads : Reads sub draft members keywords)
    (mem : (keyword, value) ∈ keywords)
    (same : Assertion.ofKey? keyword.key = some assertion) :
    assertion.keyword = keyword ∧ Meaning.Fits assertion value := by
  rcases reads.cases mem with ⟨json, _, plain, read⟩ | mem | mem | ⟨items, rest, mem⟩
  · have kind := Option.filter_eq_some_iff.1 plain
    have own := assertion_keyword (find_default kind.1).1 same
    refine ⟨own, ReadsMember.fits own (fun limit => ?_) read⟩
    simp [limit] at kind
  · exact fits_limitEntries reads.1 (.inl rfl) (by decide +kernel) mem same
  · exact fits_limitEntries reads.1 (.inr rfl) (by decide +kernel) mem same
  · unfold ReadsItems at rest
    dsimp only at rest
    split at rest
    · rw [rest] at mem
      cases mem
    · obtain ⟨form, additional, rfl, _⟩ := rest
      cases List.mem_singleton.1 mem
      have known : Assertion.ofKey? Builtin.items.key = some .items := by decide
      rw [known] at same
      cases same
      exact ⟨rfl, trivial⟩

/-! ## Sessions without errors -/

namespace Track

variable {contents : String → Json} {w : Track contents} {schema other : Schema}

theorem isTyped_of_made (clean : w.stock.IsClean) (made : w.stock.Made schema) :
    schema.IsTyped := by
  have reference : ∀ {keywords : List (Keyword × KeywordValue)} {ref uri : String}
      {target : HandleId} {keyword : Keyword} {assertion : Assertion} {value : KeywordValue},
      keywords = [(Builtin.ref, .reference ref uri target)] → (keyword, value) ∈ keywords →
      Assertion.ofKey? keyword.key = some assertion →
      assertion.keyword = keyword ∧ Meaning.Fits assertion value := by
    rintro keywords ref uri target keyword assertion value rfl mem same
    cases List.mem_singleton.1 mem
    have known : Assertion.ofKey? Builtin.ref.key = some .ref := by decide
    rw [known] at same
    cases same
    exact ⟨rfl, trivial⟩
  have fits : ∀ keyword assertion value, schema.Asserts keyword assertion value →
      assertion.keyword = keyword ∧ Meaning.Fits assertion value := by
    rintro keyword assertion value ⟨mem, same⟩
    rcases cases_made clean made with rfl | rfl | ⟨location, members, draft, _, node⟩
    · cases mem
    · cases List.mem_singleton.1 mem
      have known : Assertion.ofKey? Builtin.not.key = some .not := by decide
      rw [known] at same
      cases same
      exact ⟨rfl, trivial⟩
    · rcases node with ⟨id, node, ref, uri, rfl⟩ | ⟨node, keywords, rfl, built⟩
      · exact reference rfl mem same
      · split at built
        · obtain ⟨text, uri, target, _, _, only, _⟩ := built
          exact reference only mem same
        · exact built.2.fits mem same
  intro keyword assertion value asserts
  obtain ⟨own, fit⟩ := fits keyword assertion value asserts
  refine ⟨fit, fun type applies => ?_⟩
  rw [own]
  exact applies

/-- What a session without errors has made can be compiled. -/
theorem orderly (clean : w.stock.IsClean) : Orderly w.session.graph w.stock.Made where
  closed owner made use schema := by
    rintro ⟨keyword, assertion, value, ⟨mem, _⟩, listed⟩
    rcases Meaning.of_uses listed with inside | ⟨target, _, bound⟩
    · exact made_part clean made ⟨keyword, value, mem, inside⟩
    · exact w.made target _ bound
  typed schema made := isTyped_of_made clean made
  distinct schema other id made made' same same' := by
    rcases made with rfl | rfl | mem
    · cases same
    · cases same
    · rcases made' with rfl | rfl | mem'
      · cases same'
      · cases same'
      · exact w.distinct schema mem other mem' (same.trans same'.symm)

/-- What a schema reaches was made in the same session. -/
theorem made_reached (clean : w.stock.IsClean) (made : w.stock.Made schema) {other : Schema}
    (reaches : schema.Reaches w.session.graph other) : w.stock.Made other := by
  induction reaches with
  | refl => exact made
  | tail _ step ih =>
    obtain ⟨use, used⟩ := step
    exact (orderly clean).closed _ ih use _ used

/-- What a session without errors has made is orderly, as far as a schema reaches. -/
theorem orderly_reached (clean : w.stock.IsClean) (made : w.stock.Made schema) :
    Orderly w.session.graph (schema.Reaches w.session.graph) where
  closed _ reaches use _ used := reaches.tail ⟨use, used⟩
  typed other reaches := (orderly clean).typed other (made_reached clean made reaches)
  distinct other third id reaches reaches' := (orderly clean).distinct other third id
    (made_reached clean made reaches) (made_reached clean made reaches')

end Track

end Load

end JsonSchema
