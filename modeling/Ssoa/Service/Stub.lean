import Ssoa.Service.BlockSizes
import Ssoa.Service.Listener

/-!
# Stubs and the network

A client makes a `ServiceStub` for a service at an address, pushes the arguments and submits it: the
stub connects, writes the request and reads the response. At the other end is a provider, which may
have to keep something from one request to the next, such as files.

Between them is a network that may do anything short of inventing bytes: the connection may be
refused or break, either stream may end early, and the peer may be gone for any call of
`remote_endpoint()`. A link says what happens to one connection.

## Main definitions

* `Installation.serve` — what a provider answers to a connection, and what it keeps then
* `ServiceStub.submit` — a request and its response, over a network
* `Hosts.network` — the network, given who listens where and what happens to each connection
-/

namespace Ssoa

/-! ### Providers that keep something -/

/-- A class derived from `ServiceSkeleton`, in a provider that keeps a `W`: the text of its static
member `serviceSignature()`, which is a valid signature in its canonical form, and its `invoke`. -/
structure ServiceClass (W : Type) where
  text : Text
  invoke : Service → W → Except Exn (Option Response) × W
  valid : (ServiceSignature.ofText text).isValid = true
  canonical : (ServiceSignature.ofText text).signature = text
  /-- The response is made by its constructor and `pushArgument`. -/
  made : ∀ s w r, (invoke s w).1 = .ok (some r) → r.Reachable ∧ r.signature.isValid = true

namespace ServiceClass

variable {W : Type}

def signature (k : ServiceClass W) : ServiceSignature := .ofText k.text

/-- The class, as it works on what the provider keeps. -/
def skeletonClass (k : ServiceClass W) (w : W) : SkeletonClass :=
  ⟨k.signature, fun s => (k.invoke s w).1⟩

/-- The class, when a part of what is kept is its provider's. -/
def onPart {V κ : Type} (part : Throwing.Part W V κ) (k : ServiceClass V) : ServiceClass W where
  text := k.text
  invoke s w := ((k.invoke s (part.part w)).1, part.put w (k.invoke s (part.part w)).2)
  valid := k.valid
  canonical := k.canonical
  made s w := k.made s (part.part w)

end ServiceClass

/-- The classes a provider has installed. -/
structure Installation (W : Type) where
  classes : List (ServiceClass W)
  nodup : (classes.map ServiceClass.text).Nodup

namespace Installation

variable {W : Type}

/-- The texts and the creation methods, while the provider keeps `w`. -/
def mappings (p : Installation W) (w : W) :
    List (Text × CreatorMethod (List ServiceArgument) Skeleton) :=
  p.classes.map fun k => (k.text, (k.skeletonClass w).create)

/-- The provider while it keeps `w`. -/
def provider (p : Installation W) (y : YamlLibrary) (w : W) : ServiceProvider where
  yaml := y
  factory := { hierarchyName := txt "ServiceSkeleton", mappings := (p.mappings w).reverse }

/-- The provider, when a part of what is kept is its own. -/
def onPart {V κ : Type} (part : Throwing.Part W V κ) (p : Installation V) : Installation W where
  classes := p.classes.map (ServiceClass.onPart part)
  nodup := by
    rw [List.map_map]
    exact p.nodup

/-- The class installed for a service. -/
def classOf (p : Installation W) (service : Text) : Option (ServiceClass W) :=
  p.classes.find? fun k => k.text = service

/-- What the provider keeps after these invocations. -/
def after (p : Installation W) (w : W) (invocations : List (Text × Service)) : W :=
  invocations.foldl (fun w x =>
    match p.classOf x.1 with
    | some k => (k.invoke x.2 w).2
    | none => w) w

/-! ### Installed classes -/

variable (p : Installation W)

/-- The classes are found under their texts, and no others. -/
theorem classOf_eq_some_iff {service : Text} {k : ServiceClass W} :
    p.classOf service = some k ↔ k ∈ p.classes ∧ k.text = service := by
  constructor
  · intro h
    exact ⟨List.mem_of_find?_eq_some h, by simpa using List.find?_some h⟩
  · rintro ⟨hmem, rfl⟩
    cases hfind : p.classOf k.text with
    | none =>
      have hne := List.find?_eq_none.mp hfind k hmem
      simp at hne
    | some k' =>
      have htext : k'.text = k.text := by simpa using List.find?_some hfind
      rw [List.inj_on_of_nodup_map p.nodup (List.mem_of_find?_eq_some hfind) hmem htext]

/-- Other texts are not found. -/
theorem classOf_eq_none {service : Text} (h : service ∉ p.classes.map ServiceClass.text) :
    p.classOf service = none :=
  List.find?_eq_none.mpr fun k hk => by
    simpa using fun heq : k.text = service => h (heq ▸ List.mem_map_of_mem hk)

/-- What is installed in a part is found in the whole. -/
theorem classOf_onPart {V κ : Type} (part : Throwing.Part W V κ) (p : Installation V)
    (service : Text) : (p.onPart part).classOf service =
      (p.classOf service).map (ServiceClass.onPart part) :=
  List.find?_map ..

/-- The factory is the one `install` makes, class by class. -/
theorem run_installAll (y : YamlLibrary) (w : W) :
    (FactoryBase.installAll (p.mappings w)).run { hierarchyName := txt "ServiceSkeleton" } =
      (.ok (), (p.provider y w).factory) := by
  suffices hgen : ∀ (classes : List (ServiceClass W))
      (f : FactoryBase (List ServiceArgument) Skeleton), (classes.map ServiceClass.text).Nodup →
      (∀ k ∈ classes, f.mappings.lookup k.text = none) →
      (FactoryBase.installAll (classes.map fun k => (k.text, (k.skeletonClass w).create))).run f =
        (.ok (), { f with mappings :=
          (classes.map fun k => (k.text, (k.skeletonClass w).create)).reverse ++ f.mappings }) by
    have hrun := hgen p.classes { hierarchyName := txt "ServiceSkeleton" } p.nodup
      fun _ _ => rfl
    rw [List.append_nil] at hrun
    exact hrun
  intro classes
  induction classes with
  | nil => exact fun f _ _ => rfl
  | cons k classes ih =>
    intro f hnodup hnone
    obtain ⟨hk, hnodup⟩ := List.nodup_cons.mp hnodup
    rw [List.map_cons, FactoryBase.installAll, List.forM_cons]
    obtain ⟨e, he⟩ | ⟨-, hok⟩ :=
      FactoryBase.install_cases k.text (k.skeletonClass w).create f
    · have hlookup := hnone k List.mem_cons_self
      simp [FactoryBase.install, hlookup] at he
    · rw [Throwing.run_bind_of_ok hok]
      refine (ih _ hnodup fun k' hk' => ?_).trans (by simp)
      have hne : k'.text ≠ k.text := fun heq => hk (List.mem_map.mpr ⟨k', hk', heq⟩)
      rw [List.lookup_cons, beq_eq_false_iff_ne.mpr hne]
      exact hnone k' (List.mem_cons_of_mem _ hk')

variable {p}

theorem lookup_of_classOf (y : YamlLibrary) {w : W} {service : Text} {k : ServiceClass W}
    (h : p.classOf service = some k) :
    (p.provider y w).factory.mappings.lookup service = some (k.skeletonClass w).create := by
  obtain ⟨hmem, rfl⟩ := p.classOf_eq_some_iff.mp h
  exact FactoryBase.lookup_of_mem_installAll (p.run_installAll y w)
    (List.mem_map.mpr ⟨k, hmem, rfl⟩)

/-- What is not installed is not there. -/
theorem classOf_of_contains (y : YamlLibrary) {w : W} {service : Text}
    (h : (p.provider y w).factory.contains service = true) :
    ∃ k, p.classOf service = some k := by
  cases hclass : p.classOf service with
  | some k => exact ⟨k, rfl⟩
  | none =>
    have hnone : (p.provider y w).factory.mappings.lookup service = none := by
      rw [List.lookup_eq_none_iff]
      intro mapping hmapping
      obtain ⟨k, hk, rfl⟩ := List.mem_map.mp (List.mem_reverse.mp hmapping)
      have hne := List.find?_eq_none.mp hclass k hk
      simpa [eq_comm (a := service)] using hne
    rw [FactoryBase.contains, hnone] at h
    cases h

end Installation

namespace SerializationHelper

/-- The bytes written to the peer. -/
def written (h : SerializationHelper) : List Byte :=
  (h.events.filterMap fun event => match event with
    | .invoke _ _ => none
    | .write _ buffers => some buffers.flatten).flatten

end SerializationHelper

/-- What the provider writes to a connection, and what it keeps then. -/
def Installation.serve {W : Type} (p : Installation W) (y : YamlLibrary) (c : Connection) (w : W) :
    List Byte × W :=
  let h := SerializationHelper.served (p.provider y w) c
  (h.written, p.after w h.invocations)

/-! ### Links -/

/-- What happens to a connection: where the request is cut off, and the response, if they are; how
many bytes past the headers are fetched with them; what a read past the end completes with; what
`remote_endpoint()` throws; and what `write` throws on the side of the client. -/
structure Link where
  cut : Option ℕ := none
  overRead : ℕ := 0
  ending : Text := txt "End of file"
  endpoint : ℕ → Option Exn := fun _ => none
  broken : Option Exn := none
  cutBack : Option ℕ := none
  overReadBack : ℕ := 0
  /-- At most 65536 bytes are read at once. -/
  overReadBack_le : overReadBack ≤ 65536 := by decide

namespace Link

/-- Nothing happens to the connection. -/
def plain : Link := {}

/-- The bytes up to the place where they are cut off. -/
def arrives (cut : Option ℕ) (bytes : List Byte) : List Byte :=
  match cut with
  | none => bytes
  | some n => bytes.take n

/-- The connection as the provider finds it. -/
def connection (link : Link) (request : List Byte) : Connection where
  stream := arrives link.cut request
  overRead := link.overRead
  ending := link.ending
  endpoint := link.endpoint

/-- What the client can read of the response, and how much of it past the header comes with the
header. -/
def comesBack (link : Link) (response : List Byte) : Except Exn (List Byte × ℕ) :=
  match link.broken with
  | some e => .error e
  | none => .ok (arrives link.cutBack response, link.overReadBack)

/-- Nothing goes wrong. -/
structure Whole (link : Link) : Prop where
  cut : link.cut = none
  alive : ∀ n, link.endpoint n = none
  unbroken : link.broken = none
  cutBack : link.cutBack = none

theorem arrives_prefix (cut : Option ℕ) (bytes : List Byte) : arrives cut bytes <+: bytes := by
  cases cut with
  | none => exact List.prefix_rfl
  | some n => exact List.take_prefix n bytes

end Link

/-- The exchange of one request over a link. -/
def Installation.exchange {W : Type} (p : Installation W) (y : YamlLibrary) (link : Link)
    (request : List Byte) : Throwing W Exn (List Byte × ℕ) := fun w =>
  let (response, w') := p.serve y (link.connection request) w
  (link.comesBack response, w')

/-! ### Stubs -/

/-- A network: `connect(socket, resolver.resolve(query))`; and `write`, with what can then be read
from the socket and how much of it past the header comes with the header. -/
structure Network (W : Type) where
  connect : Text → Text → Throwing W Exn Unit
  exchange : Text → Text → List Byte → Throwing W Exn (List Byte × ℕ)

/-- A `ServiceStub`. -/
structure ServiceStub extends Service where
  host : Text
  port : Text

namespace ServiceStub

def new (signature : ServiceSignature) (host port : Text) : ServiceStub :=
  { Service.new signature with host, port }

/-- The service it derives from. -/
def service : Throwing.Part ServiceStub Service Unit where
  part := toService
  put s toService := { s with toService }
  rest _ := ()
  put_part _ := rfl
  part_put _ _ := rfl
  put_put _ _ _ := rfl
  rest_put _ _ := rfl

def pushArgument (arg : ServiceArgument) : Throwing ServiceStub Exn Unit :=
  Throwing.within service fun _ => Service.pushArgument arg

/-- A stub as an object, from its constructor on. -/
def machine (signature : ServiceSignature) (host port : Text) :
    Machine ServiceStub ServiceArgument (Except Exn Unit) :=
  ⟨new signature host port, fun s arg => (pushArgument arg).run s⟩

/-- What some sequence of calls makes of a new stub. -/
def Reachable (s : ServiceStub) : Prop :=
  ∃ signature host port, (machine signature host port).Reachable s

def submit {W : Type} (y : YamlLibrary) (net : Network W) (s : ServiceStub) :
    Throwing W Exn Response := do
  net.connect s.host s.port
  let buffers ← s.getConstBuffers y
  let (stream, overRead) ← net.exchange s.host s.port buffers.flatten
  Response.deserialize y.toYamlReader stream overRead

/-! ### Pushing -/

/-- What a stub keeps: the arguments pushed so far, of the types its signature declares. -/
structure Pushed (s : ServiceStub) : Prop where
  pushed_eq : s.pushed = s.arguments.length
  types : s.arguments.map (·.kind.type) <+: s.signature.inputParams

/-- What a push does. -/
theorem pushArgument_cases (arg : ServiceArgument) (s : ServiceStub) :
    (∃ e, (pushArgument arg).run s = (.error e, s)) ∨
    (s.signature.inputParams.getD s.pushed [] = arg.kind.type ∧
      s.pushed ≠ s.signature.inputParams.length ∧ (pushArgument arg).run s =
        (.ok (), { s with arguments := s.arguments ++ [arg], pushed := s.pushed + 1 })) := by
  obtain ⟨e, he⟩ | ⟨htype, hne, hok⟩ :=
    ArgumentQueue.pushArgument_cases s.signature.inputParams arg s.toArgumentQueue
  · exact .inl ⟨e, Throwing.run_within_of_eq service (x := fun _ => Service.pushArgument arg)
      (Throwing.run_within_of_eq Service.queue
        (x := fun params => ArgumentQueue.pushArgument params arg) he)⟩
  · exact .inr ⟨htype, hne,
      Throwing.run_within_of_eq service (x := fun _ => Service.pushArgument arg)
        (Throwing.run_within_of_eq Service.queue
          (x := fun params => ArgumentQueue.pushArgument params arg) hok)⟩

theorem invariant (signature : ServiceSignature) (host port : Text) :
    (machine signature host port).Invariant Pushed where
  init := ⟨rfl, List.nil_prefix⟩
  step s arg h := by
    show Pushed ((pushArgument arg).run s).2
    obtain ⟨e, he⟩ | ⟨htype, hne, hok⟩ := pushArgument_cases arg s
    · rw [he]
      exact h
    · rw [hok]
      refine ⟨by simp [h.pushed_eq], ?_⟩
      have htake := List.prefix_iff_eq_take.mp h.types
      rw [List.length_map, ← h.pushed_eq] at htake
      have hlt : s.pushed < s.signature.inputParams.length := by
        refine Nat.lt_of_le_of_ne ?_ hne
        rw [h.pushed_eq, ← List.length_map (f := fun a : ServiceArgument => a.kind.type)]
        exact h.types.length_le
      rw [List.getD_eq_getElem?_getD, List.getElem?_eq_getElem hlt, Option.getD_some] at htype
      show (s.arguments ++ [arg]).map (·.kind.type) <+: s.signature.inputParams
      rw [List.map_append, List.map_singleton, htake, ← htype, List.take_concat_get' _ _ hlt]
      exact List.take_prefix _ _

/-- **What can be made of a stub.** -/
theorem reachable_iff {s : ServiceStub} : s.Reachable ↔ s.Pushed := by
  constructor
  · rintro ⟨signature, host, port, h⟩
    exact (invariant signature host port).of_reachable h
  · obtain ⟨⟨⟨args, pushed⟩, signature⟩, host, port⟩ := s
    rintro ⟨hpushed, htypes⟩
    obtain rfl : pushed = args.length := hpushed
    refine ⟨signature, host, port, ?_⟩
    -- the arguments were pushed one after the other
    induction args using List.reverseRecOn with
    | nil => exact .init _
    | append_singleton args arg ih =>
      rw [List.map_append, List.map_singleton] at htypes
      have hreachable := (ih ((List.prefix_append _ _).trans htypes)).step arg
      have hnext : signature.inputParams[args.length]? = some arg.kind.type := by
        obtain ⟨rest, hrest⟩ := htypes
        rw [← hrest, List.append_assoc, List.getElem?_append_right (by simp)]
        simp
      have hpush := ArgumentQueue.pushArgument_of_getElem? (q := ⟨args, args.length⟩) hnext
      have hrun := Throwing.run_within_of_eq service (x := fun _ => Service.pushArgument arg)
        (s := ⟨⟨⟨args, args.length⟩, signature⟩, host, port⟩)
        (Throwing.run_within_of_eq Service.queue
          (x := fun params => ArgumentQueue.pushArgument params arg) hpush)
      have hstep : ((machine signature host port).step
          ⟨⟨⟨args, args.length⟩, signature⟩, host, port⟩ arg).2 =
          ⟨⟨⟨args ++ [arg], args.length + 1⟩, signature⟩, host, port⟩ := congrArg Prod.snd hrun
      rw [List.length_append, List.length_singleton]
      exact hstep ▸ hreachable

end ServiceStub

/-! ### Hosts -/

/-- Who listens at which address when the `n`-th connection is made, what is thrown where nobody
does, and what happens to the connection. -/
structure Hosts (W : Type) where
  listening : ℕ → Text → Text → Option (Installation W)
  unreachable : Text → Text → Exn
  link : ℕ → Link

namespace Hosts

variable {W : Type} (hosts : Hosts W)

/-- The network between the hosts. It counts the connections. -/
def network (y : YamlLibrary) : Network (W × ℕ) where
  connect host port := fun s =>
    match hosts.listening s.2 host port with
    | none => (.error (hosts.unreachable host port), (s.1, s.2 + 1))
    | some _ => (.ok (), s)
  exchange host port request := fun s =>
    match hosts.listening s.2 host port with
    | none => (.error (hosts.unreachable host port), (s.1, s.2 + 1))
    | some p =>
      let (received, w) := (p.exchange y (hosts.link s.2) request).run s.1
      (received, (w, s.2 + 1))

end Hosts

end Ssoa
