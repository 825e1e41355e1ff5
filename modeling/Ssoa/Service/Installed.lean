import Ssoa.Service.Dispatch
import Ssoa.Signature.Malformed

/-!
# Which requests reach an installed service

A skeleton is installed under the text its class gives, as it is written. A request is looked up
under the canonical string of the text in its header, and whether that text is a valid signature is
not asked. Equality of signatures is a third thing: it compares the canonical strings of both.

So a request for `t` reaches the skeleton installed under `s` exactly when the canonical string of
`t` is `s` (`dispatched_iff`). That is equality with a valid `s` except in two cases: `s` is not
written in its canonical form, and nothing equal to it reaches the skeleton; or `t` is malformed
and what the parser collected from it renders as `s`, and it reaches the skeleton all the same. The
registry, which compares canonical strings, refuses malformed texts when a service is registered.

## Main results

* `SerializationHelper.dispatched_iff` — which requests reach a skeleton
* `SerializationHelper.agreesWithEquality_iff` — when that is equality of signatures
-/

namespace Ssoa

/-- The header has this text for its service, and blocks of these sizes. -/
def RequestText (y : YamlReader) (header t : Text) (blocks : List (BitVec 32)) : Prop :=
  ∃ node, y.load header = .ok node ∧ y.textAt node (txt "service") = .ok t ∧
    readBlocks y node = .ok blocks

theorem RequestText.header {y : YamlReader} {header t : Text} {blocks : List (BitVec 32)}
    (h : RequestText y header t blocks) : RequestHeader y header (.ofText t) blocks := by
  obtain ⟨node, hload, htext, hblocks⟩ := h
  exact ⟨node, t, hload, htext, rfl, hblocks⟩

/-- A header the library has emitted. -/
theorem requestText_emitted (y : YamlCpp) (t : Text) (blocks : List (BitVec 32)) :
    RequestText y.toYamlReader
      (y.emitted [(txt "service", .text t), (txt "blocks", .ints blocks)]) t blocks := by
  let fields : Document := [(txt "service", .text t), (txt "blocks", .ints blocks)]
  have hkeys : (fields.map Prod.fst).Nodup := by
    show [txt "service", txt "blocks"].Nodup
    decide
  obtain ⟨node, hload, hmap⟩ := y.load_emitted hkeys
  exact ⟨node, hload, hmap.textAt _ rfl, hmap.readBlocks rfl⟩

/-- A matching request for the service text `t`: its blocks are those of the parameters of `t`, and
the payload carries them. -/
structure MatchingRequest (y : YamlReader) (stream : List Byte) (t : Text)
    (blocks : List (BitVec 32)) (args : List ServiceArgument) : Prop where
  terminated : 0 ∈ stream
  header : RequestText y (cstr stream) t blocks
  payload : Carries (ServiceSignature.ofText t).inputParams blocks (payloadOf stream) args

namespace SerializationHelper

/-- The request of the connection is dispatched to the skeleton installed under `s`. -/
def Dispatched (p : ServiceProvider) (c : Connection) (s : Text) : Prop :=
  ∃ skeleton, (s, skeleton) ∈ (served p c).invocations

variable {p : ServiceProvider} {c : Connection} {s t : Text} {k : SkeletonClass}
  {blocks : List (BitVec 32)} {args : List ServiceArgument}

/-- **Which requests reach a skeleton**: those whose canonical string is the text it is installed
under. -/
theorem dispatched_iff (hinstalled : p.factory.mappings.lookup s = some k.create)
    (hrequest : MatchingRequest p.yaml.toYamlReader c.stream t blocks args) (halive : c.Alive) :
    Dispatched p c s ↔ canon t = s := by
  obtain ⟨hmem, hheader, hcarries⟩ := hrequest
  constructor
  · rintro ⟨skeleton, hinvoked⟩
    obtain ⟨signature, blocks', args', hdecodes, hcreated⟩ := exists_decodes_of_invoked hinvoked
    obtain rfl := hdecodes.header.requested.unique hheader.header.requested
    rw [created] at hcreated
    split at hcreated
    · exact (congrArg Prod.fst (List.mem_singleton.mp hcreated)).symm
    · cases hcreated
  · rintro rfl
    have hcount : blocks.length = (ServiceSignature.ofText t).inputParams.length := by
      rw [← List.length_map (f := BitVec.toNat), ← hcarries.sizes, List.length_map,
        ← hcarries.types, List.length_map]
    have hdecodes : Decodes p c.stream (.ofText t) blocks args :=
      ⟨hmem, hheader.header, FactoryBase.contains_of_lookup hinstalled, hcount, hcarries⟩
    rcases serve_of_decodes hdecodes with ⟨-, n, hgone⟩ | hinvoked
    · exact absurd (halive n) hgone
    · have hcreate : p.factory.create (ServiceSignature.ofText t).signature args =
          k.create args := FactoryBase.create_of_lookup hinstalled args
      rw [created, hcreate] at hinvoked
      exact ⟨_, by rw [hinvoked]; exact List.mem_singleton_self _⟩

/-- The requests for `t` that reach the skeleton installed under `s` are those for a valid signature
equal to the one of `s`. -/
def AgreesWithEquality (p : ServiceProvider) (c : Connection) (s t : Text) : Prop :=
  Dispatched p c s ↔ (ServiceSignature.ofText t).isValid = true ∧
    (ServiceSignature.ofText t).equals (.ofText s) = true

/-- The canonical string of a valid text is its own canonical string. -/
theorem canon_canon (h : (ServiceSignature.ofText t).isValid = true) : canon (canon t) = canon t :=
  congrArg (fun a => a.signature) (ServiceSignature.ofText_signature h)

/-- A provider with a skeleton installed under the valid text `s` among others, and a connection
with a matching request for `t`. The peer stays connected. -/
structure InstalledRequest (p : ServiceProvider) (c : Connection) (s t : Text) : Prop where
  valid : (ServiceSignature.ofText s).isValid = true
  installed : ∃ (classes : List (Text × CreatorMethod (List ServiceArgument) Skeleton))
    (k : SkeletonClass), (s, k.create) ∈ classes ∧
    (FactoryBase.installAll classes).run { hierarchyName := txt "ServiceSkeleton" } =
      (.ok (), p.factory)
  request : ∃ blocks args, MatchingRequest p.yaml.toYamlReader c.stream t blocks args
  alive : c.Alive

/-- **When dispatch agrees with equality of signatures.** If `t` is valid and equal to `s`, the
skeleton must be installed under the canonical string; if `t` is malformed, what the parser makes
of it must not be the text the skeleton is installed under. -/
theorem agreesWithEquality_iff (h : InstalledRequest p c s t) : AgreesWithEquality p c s t ↔
    ((ServiceSignature.ofText t).isValid = true → canon t = canon s → canon s = s) ∧
    ((ServiceSignature.ofText t).isValid = false → canon t ≠ s) := by
  obtain ⟨classes, k, hmem, hclasses⟩ := h.installed
  obtain ⟨blocks, args, hrequest⟩ := h.request
  have hdispatched := dispatched_iff (FactoryBase.lookup_of_mem_installAll hclasses hmem) hrequest
    h.alive
  have hequals : (ServiceSignature.ofText t).equals (.ofText s) = true ↔ canon t = canon s :=
    ServiceSignature.equals_iff
  rw [AgreesWithEquality, hdispatched, hequals]
  cases ht : (ServiceSignature.ofText t).isValid with
  | true =>
    constructor
    · intro h
      refine ⟨fun _ heq => ?_, fun h => by cases h⟩
      rw [← heq]
      exact h.mpr ⟨rfl, heq⟩
    · rintro ⟨h, -⟩
      constructor
      · intro heq
        refine ⟨rfl, ?_⟩
        rw [← heq, canon_canon ht]
      · rintro ⟨-, heq⟩
        rw [heq, h rfl heq]
  | false => simp

/-! ### Two requests that are dispatched wrongly -/

/-- The header of a request for `t` with one block of four bytes. -/
def intHeader (t : Text) : Document := [(txt "service", .text t), (txt "blocks", .ints [4])]

/-- A library that writes two such headers as yaml-cpp does. -/
noncomputable def intYaml : YamlCpp :=
  .ofTexts [intHeader (txt "f(in int)"), intHeader (txt "f(in int, foo bar)")] (by decide +kernel)
    (by decide +kernel)

/-- A service with the signature text `s`, which answers with a null pointer. -/
def nullSkeleton (s : Text) : SkeletonClass := ⟨.ofText s, fun _ => .ok none⟩

/-- A provider with that service installed. -/
noncomputable def intProvider (s : Text) : ServiceProvider :=
  ⟨intYaml.toYamlLibrary, ⟨txt "ServiceSkeleton", [(s, (nullSkeleton s).create)]⟩⟩

/-- A connection with a request for `t` and the argument 7. -/
noncomputable def intConnection (t : Text) : Connection :=
  { stream := wire (intYaml.emitted (intHeader t)) ++ htonl 7 }

theorem installedRequest_int (hvalid : (ServiceSignature.ofText s).isValid = true)
    (ht : (ServiceSignature.ofText t).inputParams = [txt "int"]) :
    InstalledRequest (intProvider s) (intConnection t) s t where
  valid := hvalid
  installed := ⟨[(s, (nullSkeleton s).create)], nullSkeleton s, List.mem_singleton_self _, rfl⟩
  request := by
    have hnul : 0 ∉ intYaml.emitted (intHeader t) := intYaml.zero_not_mem_emitted _
    refine ⟨[4], [.ofInt 7], by simp [intConnection, wire], ?_, ?_⟩
    · rw [intConnection, cstr_wire_append hnul]
      exact requestText_emitted intYaml t [4]
    · rw [intConnection, payloadOf_wire hnul, ht]
      exact ⟨rfl, rfl, List.prefix_rfl⟩
  alive _ := rfl

/-- `f(in int)`, installed and requested as it is written. -/
theorem agreesWithEquality_int :
    AgreesWithEquality (intProvider (txt "f(in int)")) (intConnection (txt "f(in int)"))
      (txt "f(in int)") (txt "f(in int)") ↔
    ((ServiceSignature.ofText (txt "f(in int)")).isValid = true →
      canon (txt "f(in int)") = canon (txt "f(in int)") →
      canon (txt "f(in int)") = txt "f(in int)") ∧
    ((ServiceSignature.ofText (txt "f(in int)")).isValid = false →
      canon (txt "f(in int)") ≠ txt "f(in int)") :=
  agreesWithEquality_iff (installedRequest_int (by decide +kernel) (by decide +kernel))

/-- A malformed text reaches the skeleton installed under `f(in int)`, and a request for `f(in int)`
does not reach the one installed under `f( in int )`. -/
theorem not_agreesWithEquality :
    (InstalledRequest (intProvider (txt "f(in int)")) (intConnection (txt "f(in int, foo bar)"))
      (txt "f(in int)") (txt "f(in int, foo bar)") ∧
    ¬ AgreesWithEquality (intProvider (txt "f(in int)")) (intConnection (txt "f(in int, foo bar)"))
      (txt "f(in int)") (txt "f(in int, foo bar)")) ∧
    InstalledRequest (intProvider (txt "f( in int )")) (intConnection (txt "f(in int)"))
      (txt "f( in int )") (txt "f(in int)") ∧
    ¬ AgreesWithEquality (intProvider (txt "f( in int )")) (intConnection (txt "f(in int)"))
      (txt "f( in int )") (txt "f(in int)") := by
  have hmalformed := installedRequest_int (s := txt "f(in int)") (t := txt "f(in int, foo bar)")
    (by decide +kernel) (by decide +kernel)
  have hspaced := installedRequest_int (s := txt "f( in int )") (t := txt "f(in int)")
    (by decide +kernel) (by decide +kernel)
  have hlookup : ∀ s, (intProvider s).factory.mappings.lookup s = some (nullSkeleton s).create :=
    fun s => by rw [intProvider, List.lookup_cons, beq_self_eq_true]
  refine ⟨⟨hmalformed, fun hagrees => ?_⟩, hspaced, fun hagrees => ?_⟩
  · obtain ⟨blocks, args, hrequest⟩ := hmalformed.request
    have hdispatched := (dispatched_iff (hlookup _) hrequest hmalformed.alive).mpr
      (by decide +kernel)
    exact absurd (hagrees.mp hdispatched).1 (by decide +kernel)
  · obtain ⟨blocks, args, hrequest⟩ := hspaced.request
    have hdispatched := hagrees.mpr ⟨by decide +kernel, by decide +kernel⟩
    have hcanon := (dispatched_iff (hlookup _) hrequest hspaced.alive).mp hdispatched
    exact absurd hcanon (by decide +kernel)

end SerializationHelper

end Ssoa
