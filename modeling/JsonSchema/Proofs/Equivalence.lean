import JsonSchema.Proofs.Naming
import JsonSchema.Proofs.Operations
import JsonSchema.Proofs.Spelling
import JsonSchema.Proofs.Steps

/-!
# Locations that are cache-equivalent

Two locations are equivalent if their URIs by document or their canonical URIs are the same, and the
cache finds one of them by the other if any of their keys are the same. Every equivalent location is
found. The converse fails, since the keys of a location are not told apart: the URI of a document
may be the identifier of another schema, two schemas may have the same identifier above them, and a
name may read as a pointer.

For locations with normal URIs, `Location.lookupLocation_start` says which locations are found: the
equivalent ones and those that overlap (`Location.Overlaps`). If what the two are addressed by is
kept apart (`Location.AreApart`), the equivalent locations are the ones that are found. An example
at the end shows a location that is found and not equivalent.
-/

namespace JsonSchema

/-! ## Addresses -/

namespace Uri

/-- A URI without a fragment and the fragment behind it are both read off the whole. -/
theorem withFragment_inj_iff {base base' a b : String} (plain : '#' ∉ base.toList)
    (plain' : '#' ∉ base'.toList) :
    withFragment base a = withFragment base' b ↔ base = base' ∧ a = b := by
  have front : ∀ {base : String}, '#' ∉ base.toList → ∀ c : String,
      (Text.cut '#' (withFragment base c).toList).1 = base.toList := by
    intro base plain c
    unfold withFragment
    split
    · rw [Text.cut_clear plain]
    · rw [toList_marked, Text.cut_append plain]
  constructor
  · intro same
    have bases : base = base' := by
      rw [← String.toList_inj, ← front plain a, same, front plain' b]
    subst bases
    exact ⟨rfl, withFragment_inj plain same⟩
  · rintro ⟨rfl, rfl⟩
    rfl

end Uri

namespace Location

variable {a b location : Location} {uri : String}

/-- The URI of a way from the value that a base stands for. -/
@[irreducible]
def uriOf (address : String × Pointer) : String :=
  Uri.withFragment address.1 (Uri.encodeFragment address.2.text)

/-- Where a location stands by the nearest identifier above it. -/
def nearest (location : Location) : String × Pointer :=
  (location.idBase, location.idPointer)

/-- The URIs of a location are normal ones. -/
structure IsNormal (location : Location) : Prop where
  document : Uri.IsNormal location.documentUri
  base : Uri.IsNormal location.idBase

theorem uriOf_inj {address other : String × Pointer} (plain : '#' ∉ address.1.toList)
    (plain' : '#' ∉ other.1.toList) : uriOf address = uriOf other ↔ address = other := by
  rw [uriOf, uriOf, Uri.withFragment_inj_iff plain plain', Prod.ext_iff]
  refine and_congr_right fun _ => ⟨fun same => ?_, fun same => by rw [same]⟩
  exact Pointer.text_inj (Uri.encodeFragment_inj same)

theorem IsNormal.absoluteUri (normal : location.IsNormal) :
    location.absoluteUri = .ok (uriOf location.place) := by
  rw [uriOf]
  exact normal.document.normalize location.pointer.text

theorem IsNormal.identifierUri (normal : location.IsNormal) :
    location.identifierUri = .ok (uriOf location.nearest) := by
  rw [uriOf]
  exact normal.base.normalize location.idPointer.text

theorem IsNormal.canonicalUri (normal : location.IsNormal) :
    location.canonicalUri = .ok (location.declaredId.getD (uriOf location.nearest)) := by
  unfold Location.canonicalUri
  cases location.declaredId with
  | some uri => rfl
  | none =>
    rw [Option.getD_none]
    exact normal.identifierUri

/-- The keys of a location are its three URIs. -/
theorem mem_cacheKeys {keys : List String} (ok : location.cacheKeys = .ok keys) (key : String) :
    key ∈ keys ↔ location.absoluteUri = .ok key ∨ location.canonicalUri = .ok key ∨
      location.identifierUri = .ok key := by
  refine ⟨cacheKeys_cases ok, ?_⟩
  unfold cacheKeys at ok
  obtain ⟨absolute, first, ok⟩ := except_bind_ok ok
  obtain ⟨canonical, second, ok⟩ := except_bind_ok ok
  obtain ⟨identifier, third, ok⟩ := except_bind_ok ok
  have pair : absolute ∈ (if canonical = absolute then [absolute] else [absolute, canonical]) ∧
      canonical ∈ (if canonical = absolute then [absolute] else [absolute, canonical]) := by
    split
    · next same => simp [same]
    · simp
  rw [first, second, third, Except.ok.injEq, Except.ok.injEq, Except.ok.injEq]
  rw [← Except.ok.inj ok]
  generalize (if canonical = absolute then [absolute] else [absolute, canonical]) = keys at pair
  split
  · next known =>
    rintro (rfl | rfl | rfl)
    · exact pair.1
    · exact pair.2
    · exact List.contains_iff_mem.1 known
  · rintro (rfl | rfl | rfl)
    · exact List.mem_append_left _ pair.1
    · exact List.mem_append_left _ pair.2
    · exact List.mem_append_right _ List.mem_cons_self

theorem IsNormal.cacheKeys (normal : location.IsNormal) : ∃ keys, location.cacheKeys = .ok keys := by
  unfold Location.cacheKeys
  rw [normal.absoluteUri, normal.canonicalUri, normal.identifierUri]
  exact ⟨_, rfl⟩

/-! ## What is found -/

/-- In the cache of one location another one is found if they share a key. -/
theorem lookupLocation_start (graph : SchemaGraph) {keys keys' : List String}
    (ok : a.cacheKeys = .ok keys) (ok' : b.cacheKeys = .ok keys') :
    ∃ id cache graph', Cache.empty.start graph a = .ok (id, cache, graph') ∧
      cache.lookupLocation b = .ok (if ∃ key ∈ keys, key ∈ keys' then some id else none) := by
  refine ⟨⟨graph.handles.size⟩, Cache.empty.enter keys ⟨graph.handles.size⟩,
    (graph.addHandle a).2, ?_, ?_⟩
  · unfold Cache.start
    rw [ok]
    rfl
  · have entry : ∀ key, (Cache.empty.enter keys ⟨graph.handles.size⟩).handles.lookup key =
        if key ∈ keys then some ⟨graph.handles.size⟩ else none := by
      intro key
      rw [Cache.lookup_enter]
      rfl
    unfold Cache.lookupLocation
    rw [ok']
    refine congrArg Except.ok ?_
    simp only [entry]
    split
    · next shared =>
      obtain ⟨key, mem, mem'⟩ := shared
      cases found : keys'.findSome? fun key => if key ∈ keys then some _ else none with
      | some id =>
        obtain ⟨key', _, same⟩ := List.exists_of_findSome?_eq_some found
        split at same
        · exact same.symm
        · cases same
      | none =>
        have missing := List.findSome?_eq_none_iff.1 found key mem'
        rw [if_pos mem] at missing
        cases missing
    · next apart =>
      rw [List.findSome?_eq_none_iff]
      intro key mem'
      rw [if_neg fun mem => apart ⟨key, mem, mem'⟩]

/-- A location declares as its identifier what another one is addressed by. -/
def Declares (a b : Location) : Prop :=
  ∃ address ∈ [b.place, b.nearest], a.declaredId = some (uriOf address)

/-- Two locations are addressed by the same text, at least one of them by an identifier. -/
def Overlaps (a b : Location) : Prop :=
  a.nearest = b.place ∨ a.place = b.nearest ∨ a.nearest = b.nearest ∨ a.Declares b ∨ b.Declares a

instance (a b : Location) : Decidable (a.Declares b) :=
  inferInstanceAs (Decidable (∃ address ∈ [b.place, b.nearest], _))

instance (a b : Location) : Decidable (a.Overlaps b) :=
  inferInstanceAs (Decidable (_ ∨ _ ∨ _ ∨ _ ∨ _))

theorem isCacheEquivalent_eq {absolute absolute' canonical canonical' : String}
    (first : a.absoluteUri = .ok absolute) (first' : b.absoluteUri = .ok absolute')
    (second : a.canonicalUri = .ok canonical) (second' : b.canonicalUri = .ok canonical') :
    a.isCacheEquivalent b = .ok (decide (absolute = absolute' ∨ canonical = canonical')) := by
  unfold Location.isCacheEquivalent
  rw [first, first', second, second']
  by_cases same : absolute = absolute'
  · simp [same, bind, Except.bind, pure, Except.pure]
  · simp [same, bind, Except.bind, pure, Except.pure]

/-- What a location is addressed by has no mark. -/
theorem IsNormal.mark (normal : location.IsNormal) {address : String × Pointer}
    (mem : address ∈ [location.place, location.nearest]) : '#' ∉ address.1.toList := by
  rcases List.mem_cons.1 mem with rfl | mem
  · exact normal.document.mark
  · rw [List.mem_singleton.1 mem]
    exact normal.base.mark

/-- A canonical URI by which another location is addressed is that of the nearest identifier, or it
is declared. -/
theorem nearest_or_declares (normal : a.IsNormal) (normal' : b.IsNormal)
    {address : String × Pointer} (mem : address ∈ [b.place, b.nearest])
    (same : a.declaredId.getD (uriOf a.nearest) = uriOf address) :
    a.nearest = address ∨ a.Declares b := by
  cases declared : a.declaredId with
  | none =>
    rw [declared, Option.getD_none] at same
    exact .inl ((uriOf_inj normal.base.mark (normal'.mark mem)).1 same)
  | some uri =>
    rw [declared, Option.getD_some] at same
    exact .inr ⟨address, mem, by rw [declared, same]⟩

/-- Equivalent locations share a key. -/
theorem shares_of_isCacheEquivalent {keys keys' : List String} (ok : a.cacheKeys = .ok keys)
    (ok' : b.cacheKeys = .ok keys') (equivalent : a.isCacheEquivalent b = .ok true) :
    ∃ key ∈ keys, key ∈ keys' := by
  unfold Location.isCacheEquivalent at equivalent
  obtain ⟨absolute, first, equivalent⟩ := except_bind_ok equivalent
  obtain ⟨absolute', first', equivalent⟩ := except_bind_ok equivalent
  split at equivalent
  · next same =>
    subst same
    exact ⟨absolute, (mem_cacheKeys ok _).2 (.inl first), (mem_cacheKeys ok' _).2 (.inl first')⟩
  · obtain ⟨canonical, second, equivalent⟩ := except_bind_ok equivalent
    obtain ⟨canonical', second', equivalent⟩ := except_bind_ok equivalent
    have same : canonical = canonical' := of_decide_eq_true (Except.ok.inj equivalent)
    subst same
    exact ⟨canonical, (mem_cacheKeys ok _).2 (.inr (.inl second)),
      (mem_cacheKeys ok' _).2 (.inr (.inl second'))⟩

/-- Two locations share a key just if they are equivalent or overlap. -/
theorem shares_iff (normal : a.IsNormal) (normal' : b.IsNormal) {keys keys' : List String}
    (ok : a.cacheKeys = .ok keys) (ok' : b.cacheKeys = .ok keys') {same : Bool}
    (equivalent : a.isCacheEquivalent b = .ok same) :
    (∃ key ∈ keys, key ∈ keys') ↔ same = true ∨ a.Overlaps b := by
  have flag := isCacheEquivalent_eq normal.absoluteUri normal'.absoluteUri normal.canonicalUri
    normal'.canonicalUri
  rw [equivalent, Except.ok.injEq] at flag
  have first := mem_cacheKeys ok
  have second := mem_cacheKeys ok'
  rw [normal.absoluteUri, normal.canonicalUri, normal.identifierUri] at first
  rw [normal'.absoluteUri, normal'.canonicalUri, normal'.identifierUri] at second
  simp only [Except.ok.injEq] at first second
  simp only [first, second]
  have place : a.place ∈ [a.place, a.nearest] := by simp
  have nearest : a.nearest ∈ [a.place, a.nearest] := by simp
  have place' : b.place ∈ [b.place, b.nearest] := by simp
  have nearest' : b.nearest ∈ [b.place, b.nearest] := by simp
  have address : ∀ {p q}, p ∈ [a.place, a.nearest] → q ∈ [b.place, b.nearest] →
      uriOf p = uriOf q → p = q :=
    fun mem mem' => (uriOf_inj (normal.mark mem) (normal'.mark mem')).1
  constructor
  · rintro ⟨key, rfl | rfl | rfl, shared | shared | shared⟩
    · exact .inl (by rw [flag, shared]; simp)
    · rcases nearest_or_declares normal' normal place shared with here | declares
      · exact .inr (.inr (.inl here.symm))
      · exact .inr (.inr (.inr (.inr (.inr declares))))
    · exact .inr (.inr (.inl (address place nearest' shared.symm)))
    · rcases nearest_or_declares normal normal' place' shared.symm with here | declares
      · exact .inr (.inl here)
      · exact .inr (.inr (.inr (.inr (.inl declares))))
    · exact .inl (by rw [flag, shared]; simp)
    · rcases nearest_or_declares normal normal' nearest' shared.symm with here | declares
      · exact .inr (.inr (.inr (.inl here)))
      · exact .inr (.inr (.inr (.inr (.inl declares))))
    · exact .inr (.inl (address nearest place' shared.symm))
    · rcases nearest_or_declares normal' normal nearest shared with here | declares
      · exact .inr (.inr (.inr (.inl here.symm)))
      · exact .inr (.inr (.inr (.inr (.inr declares))))
    · exact .inr (.inr (.inr (.inl (address nearest nearest' shared.symm))))
  · rw [flag, decide_eq_true_iff]
    rintro ((same | same) | same | same | same | ⟨other, mem, declared⟩ | ⟨other, mem, declared⟩)
    · exact ⟨_, .inl rfl, .inl same.symm⟩
    · exact ⟨_, .inr (.inl rfl), .inr (.inl same.symm)⟩
    · exact ⟨_, .inr (.inr rfl), .inl (by rw [same])⟩
    · exact ⟨_, .inl rfl, .inr (.inr (by rw [same]))⟩
    · exact ⟨_, .inr (.inr rfl), .inr (.inr (by rw [same]))⟩
    · refine ⟨uriOf other, .inr (.inl (by rw [declared, Option.getD_some])), ?_⟩
      rcases List.mem_cons.1 mem with rfl | mem
      · exact .inl rfl
      · exact .inr (.inr (by rw [List.mem_singleton.1 mem]))
    · refine ⟨uriOf other, ?_, .inr (.inl (by rw [declared, Option.getD_some]))⟩
      rcases List.mem_cons.1 mem with rfl | mem
      · exact .inl rfl
      · exact .inr (.inr (by rw [List.mem_singleton.1 mem]))

/-! ## Locations that are kept apart -/

/-- A location that the steps down a document lead to. -/
inductive IsBuilt : Location → Prop
  | root {uri : String} {location : Location} (ok : Location.root uri = .ok location) :
    IsBuilt location
  | child {location : Location} (built : IsBuilt location) (segments : Pointer) :
    IsBuilt (location.child segments)
  | withId {location named : Location} {identifier : String} (built : IsBuilt location)
    (ok : location.withId identifier = .ok named) : IsBuilt named

/-- A URI with a name behind it, in place of a way. -/
def IsName (uri : String) : Prop :=
  ∃ base fragment, Uri.splitFragment uri = .ok (base, fragment) ∧ fragment.isEmpty = false

/-- What two locations are addressed by is kept apart. -/
structure AreApart (a b : Location) : Prop where
  /-- Only a document without an identifier above the location has its URI for a base. -/
  left : a.idBase = b.documentUri → a.nearest = a.place
  right : b.idBase = a.documentUri → b.nearest = b.place
  /-- No name reads as a way. -/
  words : ∀ uri base fragment, a.declaredId = some uri ∨ b.declaredId = some uri →
    Uri.splitFragment uri = .ok (base, fragment) → fragment.isEmpty = false →
    Cache.isPointerFragment fragment = false
  /-- Beside a name, the base of both is that of one schema. -/
  bases : ∀ uri, a.declaredId = some uri ∨ b.declaredId = some uri → IsName uri →
    a.idBase = b.idBase → a.basePlace = b.basePlace

theorem IsBuilt.isFormed (built : location.IsBuilt) : Load.IsFormed location := by
  induction built with
  | root ok => exact (Load.isFormed_root ok).1
  | child _ segments ih => exact Load.isFormed_child ih segments
  | withId _ ok ih => exact Load.isFormed_withId ih ok

/-- An identifier is a base for what stands below, or a name. -/
theorem declaredId_withId {named : Location} {identifier : String}
    (ok : location.withId identifier = .ok named) :
    ∃ uri, named.declaredId = some uri ∧ (named.nearest = (uri, []) ∨ IsName uri) := by
  unfold Location.withId at ok
  obtain ⟨resolved, resolvedOk, ok⟩ := except_bind_ok ok
  obtain ⟨⟨base, fragment⟩, split, ok⟩ := except_bind_ok ok
  dsimp only at ok
  split at ok
  · next empty =>
    cases ok
    obtain ⟨source, normal⟩ := Uri.resolve_normalize resolvedOk
    rcases Uri.split_normalized normal split with ⟨rfl, _⟩ | ⟨_, _, nonempty⟩
    · exact ⟨base, rfl, .inl rfl⟩
    · rw [empty] at nonempty
      cases nonempty
  · next nonempty =>
    cases ok
    exact ⟨resolved, rfl, .inr ⟨base, fragment, split, Bool.eq_false_iff.2 nonempty⟩⟩

theorem IsBuilt.declaredId (built : location.IsBuilt) (declared : location.declaredId = some uri) :
    location.nearest = (uri, []) ∨ IsName uri := by
  cases built with
  | root ok =>
    rw [(Load.isFormed_root ok).2.1] at declared
    cases declared
  | child => cases declared
  | withId _ ok =>
    obtain ⟨uri', declared', either⟩ := declaredId_withId ok
    rw [declared] at declared'
    cases declared'
    exact either

/-- The way from the root goes through the schema of the nearest identifier. -/
theorem IsBuilt.place_eq (built : location.IsBuilt) :
    location.place = (location.basePlace.1, location.basePlace.2 ++ location.idPointer) := by
  obtain ⟨front, whole⟩ := built.isFormed.suffix
  unfold place basePlace
  dsimp only
  rw [← whole, List.length_append, Nat.add_sub_cancel, List.take_left]

theorem uriOf_base (base : String) : uriOf (base, []) = base := by
  have empty : (Uri.encodeFragment (Pointer.text [])).isEmpty = true := by decide
  rw [uriOf]
  exact if_pos empty

theorem AreApart.symm (apart : a.AreApart b) : b.AreApart a where
  left := apart.right
  right := apart.left
  words uri base fragment declared := apart.words uri base fragment declared.symm
  bases uri declared name same := (apart.bases uri declared.symm name same.symm).symm

/-- Two schemas with one address below an identifier are equivalent if they are kept apart. -/
theorem AreApart.of_nearest (apart : a.AreApart b) (built : a.IsBuilt) (built' : b.IsBuilt)
    (same : a.nearest = b.nearest) : a.place = b.place ∨
      a.declaredId.getD (uriOf a.nearest) = b.declaredId.getD (uriOf b.nearest) := by
  obtain ⟨base, way⟩ := Prod.mk.inj same
  have single : ∀ uri, a.declaredId = some uri ∨ b.declaredId = some uri → IsName uri →
      a.place = b.place := by
    intro uri declared name
    rw [built.place_eq, built'.place_eq, apart.bases uri declared name base, way]
  have plain : ∀ {x : Location}, x.IsBuilt →
      (∃ uri, x.declaredId = some uri ∧ IsName uri) ∨
        x.declaredId.getD (uriOf x.nearest) = uriOf x.nearest := by
    intro x built
    cases declared : x.declaredId with
    | none => exact .inr Option.getD_none
    | some uri =>
      rcases built.declaredId declared with here | name
      · exact .inr (by rw [here, uriOf_base, Option.getD_some])
      · exact .inl ⟨uri, rfl, name⟩
  rcases plain built with ⟨uri, declared, name⟩ | own
  · exact .inl (single uri (.inl declared) name)
  · rcases plain built' with ⟨uri, declared, name⟩ | own'
    · exact .inl (single uri (.inr declared) name)
    · exact .inr (by rw [own, own', same])

/-- Where the base of one is the document of the other, both stand at one place or apart. -/
theorem AreApart.of_place (apart : a.AreApart b) (same : a.nearest = b.place) :
    a.place = b.place := by
  rw [← apart.left (Prod.mk.inj same).1, same]

/-- No identifier that is a name is an address; any other one is the base itself. -/
theorem AreApart.of_declares (apart : a.AreApart b) (built : a.IsBuilt) (normal : a.IsNormal)
    (normal' : b.IsNormal) (declares : a.Declares b) :
    a.nearest = b.place ∨ a.nearest = b.nearest := by
  obtain ⟨address, mem, declared⟩ := declares
  have mark := normal'.mark mem
  rcases built.declaredId declared with here | ⟨base, fragment, split, nonempty⟩
  · have clear : '#' ∉ (uriOf address).toList := by
      have same : a.idBase = uriOf address := congrArg Prod.fst here
      rw [← same]
      exact normal.base.mark
    have whole : address = (uriOf address, []) :=
      (uriOf_inj mark clear).1 (uriOf_base _).symm
    rw [here, ← whole]
    rcases List.mem_cons.1 mem with same | mem
    · exact .inl same
    · exact .inr (List.mem_singleton.1 mem)
  · have normalBase : Uri.IsNormal address.1 := by
      rcases List.mem_cons.1 mem with rfl | mem
      · exact normal'.document
      · rw [List.mem_singleton.1 mem]
        exact normal'.base
    have whole := normalBase.split_withFragment (Uri.isKept_encodeFragment address.2.text)
    rw [← uriOf] at whole
    have written : fragment = Uri.encodeFragment address.2.text :=
      (Load.split_unique split whole).2
    have word := apart.words _ base fragment (.inl declared) split nonempty
    rw [written, isPointerFragment_encode] at word
    cases word

/-- Locations that are kept apart overlap only where they are equivalent. -/
theorem AreApart.equivalent (apart : a.AreApart b) (built : a.IsBuilt) (built' : b.IsBuilt)
    (normal : a.IsNormal) (normal' : b.IsNormal) (overlaps : a.Overlaps b) : a.place = b.place ∨
      a.declaredId.getD (uriOf a.nearest) = b.declaredId.getD (uriOf b.nearest) := by
  rcases overlaps with same | same | same | declares | declares
  · exact .inl (apart.of_place same)
  · exact .inl (apart.symm.of_place same.symm).symm
  · exact apart.of_nearest built built' same
  · rcases apart.of_declares built normal normal' declares with same | same
    · exact .inl (apart.of_place same)
    · exact apart.of_nearest built built' same
  · rcases apart.symm.of_declares built' normal' normal declares with same | same
    · exact .inl (apart.symm.of_place same).symm
    · exact apart.of_nearest built built' same.symm

/-- Where the cache knows one location, every equivalent location is found. Of the locations with
normal URIs those are found that are equivalent or overlap; if the two are kept apart, these are
the equivalent ones. -/
theorem lookupLocation_finds (graph : SchemaGraph) (a b : Location) :
    (∀ id cache graph' found, Cache.empty.start graph a = .ok (id, cache, graph') →
      cache.lookupLocation b = .ok found → a.isCacheEquivalent b = .ok true → found = some id) ∧
    (a.IsBuilt → b.IsBuilt → a.IsNormal → b.IsNormal →
      ∃ id cache graph' same, Cache.empty.start graph a = .ok (id, cache, graph') ∧
        a.isCacheEquivalent b = .ok same ∧
        cache.lookupLocation b = .ok (if same = true ∨ a.Overlaps b then some id else none) ∧
        (a.AreApart b → cache.lookupLocation b = .ok (if same = true then some id else none))) := by
  constructor
  · intro id cache graph' found started looked equivalent
    obtain ⟨keys, ok, -⟩ := Session.start_eq started
    obtain ⟨keys', ok', -⟩ := except_bind_ok looked
    obtain ⟨id', cache', graph'', started', looked'⟩ := lookupLocation_start graph ok ok'
    rw [started, Except.ok.injEq, Prod.mk.injEq, Prod.mk.injEq] at started'
    obtain ⟨rfl, rfl, rfl⟩ := started'
    rw [looked, Except.ok.injEq] at looked'
    rw [looked', if_pos (shares_of_isCacheEquivalent ok ok' equivalent)]
  · intro built built' normal normal'
    obtain ⟨keys, ok⟩ := normal.cacheKeys
    obtain ⟨keys', ok'⟩ := normal'.cacheKeys
    obtain ⟨id, cache, graph', started, looked⟩ := lookupLocation_start graph ok ok'
    have equivalent := isCacheEquivalent_eq normal.absoluteUri normal'.absoluteUri
      normal.canonicalUri normal'.canonicalUri
    refine ⟨id, cache, graph', _, started, equivalent, ?_, fun apart => ?_⟩
    · rw [looked]
      simp only [shares_iff normal normal' ok ok' equivalent]
    · have only : a.Overlaps b → uriOf a.place = uriOf b.place ∨
          a.declaredId.getD (uriOf a.nearest) = b.declaredId.getD (uriOf b.nearest) := fun overlaps =>
        (apart.equivalent built built' normal normal' overlaps).imp_left fun here => by rw [here]
      rw [looked]
      simp only [shares_iff normal normal' ok ok' equivalent, decide_eq_true_iff,
        or_iff_left_of_imp only]

/-- A schema of a document below an identifier that another document declares as well. -/
def linked (document : String) : Location where
  documentUri := document
  pointer := ["x"]
  scope := "http://e.com/o.json"
  idBase := "http://e.com/o.json"
  idPointer := ["x"]
  declaredId := none

/-- In two documents the same schema is found below the identifier that both declare. -/
theorem lookupLocation_finds_linked :
    ∃ id cache graph,
      Cache.empty.start .empty (linked "http://e.com/a.json") = .ok (id, cache, graph) ∧
        (linked "http://e.com/a.json").isCacheEquivalent (linked "http://e.com/b.json") = .ok true ∧
        cache.lookupLocation (linked "http://e.com/b.json") = .ok (some id) := by
  have built : ∀ document, (do (← root document).withId "http://e.com/o.json").toOption =
      some { linked document with
        pointer := [], idPointer := [], declaredId := "http://e.com/o.json" } →
      IsBuilt (linked document) := by
    intro document named
    obtain ⟨start, ok, named⟩ := except_bind_ok (toOption_ok named)
    exact .child (.withId (.root ok) named) ["x"]
  have first := built "http://e.com/a.json" (by decide +kernel)
  have second := built "http://e.com/b.json" (by decide +kernel)
  have equivalent : (linked "http://e.com/a.json").isCacheEquivalent (linked "http://e.com/b.json") =
      .ok true := toOption_ok (by decide +kernel)
  have apart : (linked "http://e.com/a.json").AreApart (linked "http://e.com/b.json") :=
    ⟨fun same => absurd same (by decide), fun same => absurd same (by decide),
      fun _ _ _ declared => (declared.elim nofun nofun), fun _ declared => declared.elim nofun nofun⟩
  obtain ⟨finds, exactly⟩ := lookupLocation_finds .empty (linked "http://e.com/a.json")
    (linked "http://e.com/b.json")
  obtain ⟨id, cache, graph, same, started, equivalent', _, looked⟩ := exactly first second
    ⟨by decide +kernel, by decide +kernel⟩ ⟨by decide +kernel, by decide +kernel⟩
  have found := finds id cache graph _ started (looked apart) equivalent
  exact ⟨id, cache, graph, started, equivalent, found ▸ looked apart⟩

-- The identifier of one schema is the URI of the document of the other.
example :
    let one := (root "http://e.com/a.json").bind (·.withId "http://e.com/b.json")
    let other := (root "http://e.com/b.json").bind (·.withId "http://e.com/c.json")
    (do (← one).isCacheEquivalent (← other)).toOption = some false ∧
      (do
        let (_, cache, _) ← Cache.empty.start .empty (← one)
        cache.lookupLocation (← other)).toOption = some (some ⟨0⟩) := by
  decide +kernel

end Location

end JsonSchema
