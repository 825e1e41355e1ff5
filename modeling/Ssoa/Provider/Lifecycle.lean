import Ssoa.Lib.Ownership
import Ssoa.Provider.Startup
import Ssoa.Registry.Lookup

/-!
# Providers that come and go

Any number of providers start, serve and stop while clients ask the registry for services. Every
process sends the registry one request after the other, and the requests of different processes
alternate in any order. A request is one step here: `Ssoa.Registry.Listener` tells what becomes of
its parts, and `Ssoa.Registry.Linearised` what lookups that overlap may be answered.

A provider is the only one that changes the offers at its address, as long as nobody starts with the
address of a provider that has not ended yet. What comes of a second one there is told in
`Ssoa.Provider.Startup`: its server cannot listen, and it takes the offers of the first one away.

## Main results

* `ProviderMain.alone_process` — the steps of a process, taken alone, are `main`
* `ProviderMain.lifecycle` — what the registry holds while providers come and go
-/

namespace Ssoa

open ServiceSignature

/-- The factory of a provider. -/
abbrev SkeletonFactory : Type := FactoryBase (List ServiceArgument) Skeleton

/-- The state of a provider is its own factory, and the registry. -/
def ProviderState.halves : ProviderState ≃ SkeletonFactory × SoundRegistry where
  toFun s := (s.factory, s.registry)
  invFun s := ⟨s.1, s.2⟩
  left_inv _ := rfl
  right_inv _ := rfl

namespace ProviderMain

section Program

variable (y : YamlCpp) (create : Text → CreatorMethod (List ServiceArgument) Skeleton)

/-- `main`, with each registration and deregistration a step. -/
def process (services : List Text) (o : ProviderOptions) (server : Except Exn Unit) :
    Process SkeletonFactory SoundRegistry Exn ExitStatus := do
  let registered ← tryCatch
    (do
      forM services fun service => Process.step ProviderState.halves
        (registerService o.proxy y create o.address o.port service)
      return true)
    fun _ => return false
  if registered = false then return .failure
  else
    let status ← tryCatch (do liftM server; return .success) fun _ => return .failure
    let deregistered ← tryCatch
      (do
        forM services fun service => Process.step ProviderState.halves
          (deregisterService o.proxy y o.address o.port service)
        return true)
      fun _ => return false
    if deregistered = false then return .failure else return status

/-- **The steps of a process, taken alone, are `main`.** -/
theorem alone_process (services : List Text) (o : ProviderOptions) (server : Except Exn Unit) :
    Process.alone ProviderState.halves (process y create services o server) =
      main y create services (some o) server := by
  simp only [process, main, Process.alone_bind, Process.alone_tryCatch, Process.alone_forM,
    Process.alone_step, Process.alone_pure, Process.alone_lift, Process.alone_ite]

end Program

/-! ### The processes -/

/-- The services there are. -/
def catalogue : List Text := storageServices ++ imageManipulationServices

/-- A provider, with its options and what becomes of its server. -/
structure ProviderProcess where
  services : List Text
  program : services ∈ [storageServices, imageManipulationServices]
  options : ProviderOptions
  initialized : options.proxy.Initialized
  server : Except Exn Unit

namespace ProviderProcess

/-- Where it listens. -/
def address (p : ProviderProcess) : Provider := (p.options.address, p.options.port)

/-- What it offers while it is up. -/
def offers (p : ProviderProcess) : Set (ServiceSignature × Provider) :=
  offersOf p.services p.address

/-- What it returns. -/
def status (p : ProviderProcess) : ExitStatus := if p.server = .ok () then .success else .failure

end ProviderProcess

/-- A process that uses the registry. -/
inductive RegistryUser where
  | provider (p : ProviderProcess)
  /-- A client that asks for a service. -/
  | client (r : Registry) (service : Text)

/-- How it ends. -/
inductive UserResult where
  | returned (status : Except Exn ExitStatus)
  | told (provider : Except Exn Provider)

namespace RegistryUser

/-- The address it listens at. -/
def address : RegistryUser → Option Provider
  | provider p => some p.address
  | client _ _ => none

/-- What it offers while it is up. -/
def offers : RegistryUser → Set (ServiceSignature × Provider)
  | provider p => p.offers
  | client _ _ => ∅

end RegistryUser

variable (y : YamlCpp) (create : Text → CreatorMethod (List ServiceArgument) Skeleton)

/-- What a process does with the registry. -/
def userBody : RegistryUser → Routine SoundRegistry UserResult
  | .provider p => do
    let result ← (process y create p.services p.options p.server).run.run
      { hierarchyName := txt "ServiceSkeleton" }
    return .returned result.1
  | .client r service => Routine.update fun registry =>
      ((r.getProvider y registry service).map UserResult.told id)

/-- The processes, of which no two have the same address at the same time. -/
def processes : Pool SoundRegistry RegistryUser UserResult where
  body := userBody y create
  admits _ users user := ∀ other ∈ users, user.address = none ∨ other.address ≠ user.address
  decidableAdmits _ _ _ := inferInstance

/-! ### What a provider owns -/

/-- The offers at an address. -/
def offersAt (registry : SoundRegistry) (a : Provider) : Set (ServiceSignature × Provider) :=
  {o ∈ registry.table.offers | o.2 = a}

/-- The name of no service is taken. -/
def Untaken (registry : SoundRegistry) : Prop :=
  ∀ service ∈ catalogue, ¬ Taken registry.table.offers service

section Owner

variable {services : List Text} {registry registry' : SoundRegistry} {a : Provider} {service : Text}

theorem wellNamed_catalogue : WellNamed catalogue := ⟨by decide +kernel, by decide +kernel⟩

theorem eq_of_name_eq {other : Text} (h : service ∈ catalogue) (hother : other ∈ catalogue)
    (hname : (ofText service).name = (ofText other).name) : service = other := by
  have hnames : ∀ service ∈ catalogue, ∀ other ∈ catalogue,
      (ofText service).name = (ofText other).name → service = other := by decide +kernel
  exact hnames service h other hother hname

theorem mem_catalogue (h : services ∈ [storageServices, imageManipulationServices])
    (hservice : service ∈ services) : service ∈ catalogue := by
  rcases List.mem_pair.mp h with rfl | rfl
  · exact List.mem_append_left _ hservice
  · exact List.mem_append_right _ hservice

theorem Untaken.insert (h : Untaken registry) (hservice : service ∈ catalogue)
    (hoffers : registry'.table.offers = Insert.insert (ofText service, a) registry.table.offers) :
    Untaken registry' := by
  rintro other hother ⟨o, ho, hname, hne⟩
  rw [hoffers] at ho
  rcases ho with rfl | ho
  · obtain rfl := eq_of_name_eq hservice hother hname
    exact hne (same_equivalence.refl _)
  · exact h other hother ⟨o, ho, hname, hne⟩

theorem Untaken.subset (h : Untaken registry)
    (hoffers : registry'.table.offers ⊆ registry.table.offers) : Untaken registry' :=
  fun other hother ⟨o, ho, htaken⟩ => h other hother ⟨o, hoffers ho, htaken⟩

theorem offersAt_insert
    (hoffers : registry'.table.offers = insert (ofText service, a) registry.table.offers) :
    offersAt registry' a = insert (ofText service, a) (offersAt registry a) ∧
      Set.EqOn (offersAt registry') (offersAt registry) {a}ᶜ := by
  refine ⟨Set.ext fun o => ?_, fun b hb => Set.ext fun o => ?_⟩
  · rw [offersAt, offersAt, hoffers]
    constructor
    · rintro ⟨rfl | ho, hat⟩
      · exact .inl rfl
      · exact .inr ⟨ho, hat⟩
    · rintro (rfl | ⟨ho, hat⟩)
      · exact ⟨.inl rfl, rfl⟩
      · exact ⟨.inr ho, hat⟩
  · rw [offersAt, offersAt, hoffers]
    constructor
    · rintro ⟨rfl | ho, rfl⟩
      · exact absurd rfl hb
      · exact ⟨ho, rfl⟩
    · rintro ⟨ho, rfl⟩
      exact ⟨.inr ho, rfl⟩

theorem offersAt_diff
    (hoffers : registry'.table.offers = registry.table.offers \ {(ofText service, a)}) :
    offersAt registry' a = offersAt registry a \ {(ofText service, a)} ∧
      Set.EqOn (offersAt registry') (offersAt registry) {a}ᶜ := by
  refine ⟨Set.ext fun o => ?_, fun b hb => Set.ext fun o => ?_⟩
  · rw [offersAt, offersAt, hoffers]
    exact and_right_comm
  · rw [offersAt, offersAt, hoffers]
    refine ⟨fun ho => ⟨ho.1.1, ho.2⟩, fun ⟨ho, hat⟩ => ⟨⟨ho, ?_⟩, hat⟩⟩
    rintro rfl
    exact hb hat.symm

/-- Only the offers that are in the set, from now on. -/
def Within (offers : Set (ServiceSignature × Provider)) (_ : Provider)
    (v : Set (ServiceSignature × Provider)) : Prop := v ⊆ offers

variable {y create} {o : ProviderOptions} {offers : Set (ServiceSignature × Provider)}

/-- **The first block** registers all services, whoever uses the registry meanwhile. -/
theorem owning_registerAll (hr : o.proxy.Initialized) (hnames : WellNamed services)
    (hknown : ∀ service ∈ services, service ∈ catalogue) (factory : SkeletonFactory)
    (hfresh : ∀ service ∈ services, factory.mappings.lookup service = none)
    (f : Provider → Set (ServiceSignature × Provider))
    (hoffers : f (o.address, o.port) ∪ offersOf services (o.address, o.port) ⊆ offers) :
    Process.Owning Untaken offersAt {(o.address, o.port)} (Within offers)
      (fun _ _ f' => f' (o.address, o.port) =
        f (o.address, o.port) ∪ offersOf services (o.address, o.port))
      (forM services fun service => Process.step ProviderState.halves
        (registerService o.proxy y create o.address o.port service)) factory f := by
  induction services generalizing factory f with
  | nil => exact Process.owning_pure (by rw [offersOf_nil, Set.union_empty])
  | cons service services ih =>
    have hservice := hknown service List.mem_cons_self
    rw [union_offersOf_cons] at hoffers
    rw [List.forM_cons]
    refine Process.Owning.bind (Q := fun _ factory' f' => f' (o.address, o.port) =
        insert (ofText service, (o.address, o.port)) (f (o.address, o.port)) ∧
      factory'.mappings = (service, create service) :: factory.mappings) ?_ ?_
    · refine Process.owning_step _ fun registry huntaken hsame => ?_
      obtain ⟨htaken, -⟩ | ⟨-, t, hrun, hinsert, hmappings⟩ :=
        registerService_cases y create o.address o.port hr (hnames.valid service List.mem_cons_self)
          ⟨factory, registry⟩ (hfresh service List.mem_cons_self)
      · exact absurd htaken (huntaken service hservice)
      obtain ⟨hat, hothers⟩ := offersAt_insert hinsert
      rw [hsame rfl] at hat
      refine ⟨_, t.factory, t.registry, hrun, huntaken.insert hservice hinsert, hothers, ?_, hat,
        hmappings⟩
      rintro _ rfl
      rw [Within, hat]
      exact Set.subset_union_left.trans hoffers
    · rintro _ factory' f' ⟨hf', hmappings⟩
      rw [union_offersOf_cons, ← hf']
      refine ih hnames.tail (fun other hother => hknown other (List.mem_cons_of_mem _ hother))
        factory' (fun other hother => ?_) f' (hf' ▸ hoffers)
      have hne : other ≠ service := fun heq => hnames.name_ne hother (heq ▸ rfl)
      rw [hmappings, List.lookup_cons, beq_eq_false_iff_ne.mpr hne]
      exact hfresh other (List.mem_cons_of_mem _ hother)

/-- **The last block** takes all of them away. -/
theorem owning_deregisterAll (hr : o.proxy.Initialized) (hnames : WellNamed services)
    (factory : SkeletonFactory) (f : Provider → Set (ServiceSignature × Provider))
    (hoffers : f (o.address, o.port) ⊆ offers) :
    Process.Owning Untaken offersAt {(o.address, o.port)} (Within offers)
      (fun _ _ f' => f' (o.address, o.port) =
        f (o.address, o.port) \ offersOf services (o.address, o.port))
      (forM services fun service => Process.step ProviderState.halves
        (deregisterService o.proxy y o.address o.port service)) factory f := by
  induction services generalizing factory f with
  | nil => exact Process.owning_pure (by rw [offersOf_nil, Set.sdiff_empty])
  | cons service services ih =>
    rw [List.forM_cons]
    refine Process.Owning.bind (Q := fun _ _ f' => f' (o.address, o.port) =
      f (o.address, o.port) \ {(ofText service, (o.address, o.port))}) ?_ ?_
    · refine Process.owning_step _ fun registry huntaken hsame => ?_
      obtain ⟨t, hrun, hdiff⟩ := deregisterService_eq y o.address o.port hr
        (hnames.valid service List.mem_cons_self) ⟨factory, registry⟩
      obtain ⟨hat, hothers⟩ := offersAt_diff hdiff
      rw [hsame rfl] at hat
      refine ⟨_, t.factory, t.registry, hrun,
        huntaken.subset (hdiff.trans_subset Set.sdiff_subset), hothers, ?_, hat⟩
      rintro _ rfl
      rw [Within, hat]
      exact Set.sdiff_subset.trans hoffers
    · intro _ factory' f' hf'
      have hrest := ih hnames.tail factory' f' (hf' ▸ Set.sdiff_subset.trans hoffers)
      rw [hf', sdiff_sdiff_left] at hrest
      rw [offersOf_cons]
      exact hrest

/-- **The whole process.** -/
theorem owning_process (p : ProviderProcess) (f : Provider → Set (ServiceSignature × Provider)) :
    Process.Owning Untaken offersAt {p.address} (Within (f p.address ∪ p.offers))
      (fun status _ f' => status = p.status ∧ f' p.address = f p.address \ p.offers)
      (process y create p.services p.options p.server)
      { hierarchyName := txt "ServiceSkeleton" } f := by
  have hnames := wellNamed_of_mem p.program
  rw [process]
  refine Process.Owning.bind (Q := fun registered _ f' => registered = true ∧
    f' p.address = f p.address ∪ p.offers) (Process.Owning.tryCatch _ ?_) ?_
  · refine (owning_registerAll p.initialized hnames (fun _ => mem_catalogue p.program) _
      (fun _ _ => rfl) f subset_rfl).bind fun _ factory f' hf' => Process.owning_pure ⟨rfl, hf'⟩
  rintro _ factory f₁ ⟨rfl, hf₁⟩
  have hserver : (tryCatch (do liftM p.server; return .success) fun _ => return .failure :
      Process SkeletonFactory SoundRegistry Exn ExitStatus) = pure p.status := by
    rw [ProviderProcess.status]
    cases p.server <;> rfl
  rw [if_neg (by decide), hserver, pure_bind]
  refine Process.Owning.bind (Q := fun deregistered _ f' => deregistered = true ∧
    f' p.address = f₁ p.address \ p.offers) (Process.Owning.tryCatch _ ?_) ?_
  · exact (owning_deregisterAll p.initialized hnames factory f₁ hf₁.subset).bind
      fun _ factory f' hf' => Process.owning_pure ⟨rfl, hf'⟩
  rintro _ factory f₂ ⟨rfl, hf₂⟩
  rw [if_neg (by decide)]
  exact Process.owning_pure ⟨rfl, by rw [hf₂, hf₁, Set.union_sdiff_right]⟩

end Owner

/-! ### What the registry answers -/

section Clients

variable {y} {r : Registry}

/-- **A question to the registry** keeps the offers, and the answer is an offer of that name if
there is one. -/
theorem getProvider_cases (hr : r.Initialized) (registry : SoundRegistry) (service : Text) :
    (r.getProvider y registry service).2.table.offers = registry.table.offers ∧
      ((∃ a, (r.getProvider y registry service).1 = .ok a ∧ ∃ o ∈ registry.table.offers,
          o.1.name = (ofText service).reread.reread.name ∧ o.2 = a) ∨
        (∃ e, (r.getProvider y registry service).1 = .error e) ∧ ∀ o ∈ registry.table.offers,
          o.1.name ≠ (ofText service).reread.reread.name) := by
  have hget : r.getProvider y registry service = ((registry.lookupService
      (ofText service).reread.reread (txt "") (txt "")).map .ok id).map
        Registry.serviceOutcome id := Registry.getProvider_eq y hr registry service
  obtain ⟨found, host, port, hfound, hlookup⟩ :=
    registry.wellFormed.lookup (ofText service).reread.reread (txt "") (txt "")
  have heq := registry.lookupService_eq (ofText service).reread.reread (txt "") (txt "")
  have hresult : (registry.lookupService (ofText service).reread.reread (txt "") (txt "")).1 =
      (found, host, port) := Option.some.inj ((congrArg Prod.fst heq).symm.trans hfound)
  have htable : (registry.lookupService (ofText service).reread.reread (txt "") (txt "")).2.table =
      (registry.table.lookupService (ofText service).reread.reread (txt "") (txt "")).2 :=
    (congrArg Prod.snd heq).symm
  have hiff := registry.wellFormed.lookupService_found hfound
  rw [hget, Prod.map, Prod.map, hresult]
  refine ⟨(congrArg RegistryImpl.offers htable).trans hlookup.unchanged, ?_⟩
  cases found with
  | true => exact .inl ⟨(host, port), rfl, hlookup.answer (host, port) rfl⟩
  | false => exact .inr ⟨⟨_, rfl⟩, fun o ho hname => absurd (hiff.mpr ⟨o, ho, hname⟩) nofun⟩

theorem getProvider_offers (registry : SoundRegistry) (service : Text) :
    (r.getProvider y registry service).2.table.offers = registry.table.offers := by
  by_cases hr : r.Initialized
  · exact (getProvider_cases hr registry service).1
  · have hempty : (r.host.isEmpty || r.port.isEmpty) = true := by
      by_contra h
      refine hr ⟨?_, ?_⟩ <;> rintro hnil <;> simp [hnil] at h
    rw [Registry.getProvider, Registry.submit, if_pos hempty]

end Clients

/-! ### Providers at different addresses -/

/-- The addresses whose offers a process changes. -/
def owned : RegistryUser → Set Provider
  | .provider p => {p.address}
  | .client _ _ => ∅

instance (user : RegistryUser) (a : Provider) : Decidable (a ∈ owned user) :=
  match user with
  | .provider p => inferInstanceAs (Decidable (a = p.address))
  | .client _ _ => .isFalse id

theorem mem_owned_iff {user : RegistryUser} {a : Provider} :
    a ∈ owned user ↔ user.address = some a := by
  cases user with
  | provider p => exact ⟨fun h => congrArg some h.symm, fun h => (Option.some.inj h).symm⟩
  | client r service => exact ⟨fun h => h.elim, nofun⟩

theorem mem_owned_of_mem_offers {user : RegistryUser} {o : ServiceSignature × Provider}
    (h : o ∈ user.offers) : o.2 ∈ owned user := by
  cases user with
  | provider p =>
    obtain ⟨service, -, rfl⟩ := h
    rfl
  | client r service => exact h

/-- While a process is up. -/
def OffersDuring (user : RegistryUser) (_ : Provider) (v v' : Set (ServiceSignature × Provider)) :
    Prop := v' ⊆ v ∪ user.offers

/-- What a process does to the offers at its address, and how it ends. -/
def UserEffect (_ : Provider) (user : RegistryUser) (v : Set (ServiceSignature × Provider))
    (result : UserResult) (v' : Set (ServiceSignature × Provider)) : Prop :=
  v' = v \ user.offers ∧ ∀ p, user = .provider p → result = .returned (.ok p.status)

variable {y create}

/-- **No process disturbs another.** -/
theorem apart_processes : (processes y create).Apart Untaken offersAt owned OffersDuring UserEffect
    where
  start _ _ _ := Set.subset_union_left
  body user registry huntaken := by
    cases user with
    | provider p =>
      refine Routine.Owning.bind (Routine.Owning.mono ?_ (owning_process p (offersAt registry))) ?_
      · rintro _ rfl v hv
        exact hv
      · rintro ⟨_, factory⟩ f ⟨status, rfl, rfl, hf⟩
        rintro _ rfl
        refine ⟨hf, ?_⟩
        rintro p' ⟨⟩
        rfl
    | client r service =>
      refine Routine.owning_update fun registry' huntaken' _ => ?_
      have hoffers := getProvider_offers (y := y) (r := r) registry' service
      refine ⟨huntaken'.subset hoffers.subset, fun a _ => ?_, fun _ h => h.elim,
        fun _ h => h.elim⟩
      show {o ∈ _ | _} = _
      rw [Prod.map, id, hoffers]
      rfl
  admits registry users user hadmits other hother := by
    intro a ha ha'
    rw [mem_owned_iff] at ha ha'
    rcases hadmits other hother with hnone | hne
    · cases hnone.symm.trans ha'
    · exact hne (ha.trans ha'.symm)

/-- What is left at an address. -/
theorem history_offers {a : Provider} {calls : List (RegistryUser × UserResult)}
    {v v' : Set (ServiceSignature × Provider)} (h : Pool.History (UserEffect a) v calls v') :
    v' = {o ∈ v | ∀ x ∈ calls, o ∉ x.1.offers} ∧
      ∀ p result, (.provider p, result) ∈ calls → result = .returned (.ok p.status) := by
  induction h with
  | nil => exact ⟨by simp, fun _ _ h => absurd h List.not_mem_nil⟩
  | @call calls u w user result _ heffect ih =>
    obtain ⟨rfl, hresult⟩ := heffect
    obtain ⟨rfl, hresults⟩ := ih
    refine ⟨Set.ext fun o => ?_, fun p result' hmem => ?_⟩
    · simp only [Set.mem_sdiff, Set.mem_ofPred_eq, List.forall_mem_append,
        List.forall_mem_singleton, and_assoc]
    · rcases List.mem_append.mp hmem with hmem | hmem
      · exact hresults p result' hmem
      · obtain ⟨rfl, rfl⟩ := Prod.mk.inj (List.mem_singleton.mp hmem)
        exact hresult p rfl

/-- An offer from before that no process that has ended could have made. -/
def FromBefore (registry : SoundRegistry) (returned : List (RegistryUser × UserResult))
    (o : ServiceSignature × Provider) : Prop :=
  o ∈ registry.table.offers ∧ ∀ x ∈ returned, o ∉ x.1.offers

/-- The offers at an address that are from before. -/
theorem mem_left_iff {registry : SoundRegistry} {returned : List (RegistryUser × UserResult)}
    {o : ServiceSignature × Provider} :
    o ∈ {o' ∈ offersAt registry o.2 | ∀ x ∈ Pool.ofKey owned o.2 returned, o' ∉ x.1.offers} ↔
      FromBefore registry returned o := by
  constructor
  · rintro ⟨hbefore, hreturned⟩
    refine ⟨hbefore.1, fun x hx hmem => hreturned x (List.mem_filter.mpr ⟨hx, ?_⟩) hmem⟩
    exact decide_eq_true (mem_owned_of_mem_offers hmem)
  · rintro ⟨hbefore, hreturned⟩
    exact ⟨⟨hbefore, rfl⟩, fun x hx => hreturned x (List.mem_of_mem_filter hx)⟩

/-- **Providers that come and go.** However the processes alternate: no registration is ever
refused, and a provider fails only if its server fails. The offers at an address where no provider
is up are those from before that no provider there could make: one that has ended leaves nothing
behind. All other offers are those of providers that are up, and the registry gives a client no
others. -/
theorem lifecycle (y : YamlCpp) (create : Text → CreatorMethod (List ServiceArgument) Skeleton)
    {registry : SoundRegistry} (huntaken : Untaken registry)
    {actions : List (Pool.Action RegistryUser)}
    {s : Pool.State SoundRegistry RegistryUser UserResult}
    (hrun : (processes y create).system.run { object := registry } actions = some s) :
    Untaken s.object ∧
      (∀ p result, (.provider p, result) ∈ s.returned → result = .returned (.ok p.status)) ∧
      (∀ o, (∀ r ∈ s.running, r.call.address ≠ some o.2) →
        (o ∈ s.object.table.offers ↔ FromBefore registry s.returned o)) ∧
      (∀ o ∈ s.object.table.offers, FromBefore registry s.returned o ∨
        ∃ r ∈ s.running, o ∈ r.call.offers) ∧
      ∀ r : Registry, r.Initialized → ∀ service ∈ catalogue,
        (∀ a, (r.getProvider y s.object service).1 = .ok a →
          FromBefore registry s.returned (ofText service, a) ∨
            ∃ r ∈ s.running, (ofText service, a) ∈ r.call.offers) ∧
        ∀ e, (r.getProvider y s.object service).1 = .error e →
          ∀ a, (ofText service, a) ∉ s.object.table.offers := by
  obtain ⟨huntaken', hidle, hbusy⟩ := apart_processes.history_of_run huntaken hrun
  have hresult : ∀ p result, (.provider p, result) ∈ s.returned →
      result = .returned (.ok p.status) := by
    intro p result hmem
    have hkey : (.provider p, result) ∈ Pool.ofKey owned p.address s.returned :=
      List.mem_filter.mpr ⟨hmem, decide_eq_true rfl⟩
    by_cases hup : ∃ r ∈ s.running, p.address ∈ owned r.call
    · obtain ⟨r, hr, howned⟩ := hup
      exact (history_offers (hbusy r hr _ howned).1).2 p result hkey
    · exact (history_offers (hidle _ fun r hr howned => hup ⟨r, hr, howned⟩)).2 p result hkey
  have hdown : ∀ o, (∀ r ∈ s.running, r.call.address ≠ some o.2) →
      (o ∈ s.object.table.offers ↔ FromBefore registry s.returned o) := by
    intro o hnone
    have hhistory := (history_offers (hidle o.2 fun r hr howned =>
      hnone r hr (mem_owned_iff.mp howned))).1
    rw [← mem_left_iff, ← hhistory]
    exact ⟨fun ho => ⟨ho, rfl⟩, fun ho => ho.1⟩
  have hoffers : ∀ o ∈ s.object.table.offers, FromBefore registry s.returned o ∨
      ∃ r ∈ s.running, o ∈ r.call.offers := by
    intro o ho
    by_cases hup : ∃ r ∈ s.running, o.2 ∈ owned r.call
    · obtain ⟨r, hr, howned⟩ := hup
      obtain ⟨hhistory, hduring⟩ := hbusy r hr _ howned
      rcases hduring ⟨ho, rfl⟩ with hstart | hmine
      · rw [(history_offers hhistory).1] at hstart
        exact .inl (mem_left_iff.mp hstart)
      · exact .inr ⟨r, hr, hmine⟩
    · exact .inl ((hdown o fun r hr haddress =>
        hup ⟨r, hr, mem_owned_iff.mpr haddress⟩).mp ho)
  refine ⟨huntaken', hresult, hdown, hoffers, fun r hr service hservice => ?_⟩
  have hvalid := wellNamed_catalogue.valid service hservice
  have hreread := reread_of_isValid hvalid
  obtain ⟨-, hcases⟩ := getProvider_cases (y := y) hr s.object service
  rw [hreread, hreread] at hcases
  obtain ⟨a, ha, o, ho, hname, rfl⟩ | ⟨⟨e, he⟩, hnone⟩ := hcases
  · refine ⟨fun a' ha' => ?_, fun e he => by cases ha.symm.trans he⟩
    obtain rfl := Except.ok.inj (ha.symm.trans ha')
    -- no other signature has the name
    have hsame : Same o.1 (ofText service) := by
      by_contra hne
      exact huntaken' service hservice ⟨o, ho, hname, hne⟩
    have hsignature : o.1 = ofText service := by
      obtain ⟨data, hdata, hdatasignature, -⟩ := s.object.wellFormed.mem_offers.mp ho
      exact RegistryImpl.eq_of_equals
        (hdatasignature ▸ (s.object.wellFormed _ _ hdata).isValid) hvalid hsame
    exact hsignature ▸ hoffers o ho
  · refine ⟨fun a ha => ?_, fun _ _ a hmem => hnone (ofText service, a) hmem rfl⟩
    cases he.symm.trans ha

/-- A storage provider that is stopped. -/
def sampleStorage : ProviderProcess :=
  ⟨storageServices, by simp, sampleOptions, sampleOptions_initialized, .ok ()⟩

/-- An image manipulation provider at another port, which cannot listen. -/
def sampleImages : ProviderProcess :=
  ⟨imageManipulationServices, by simp, { sampleOptions with port := txt "1400" },
    sampleOptions_initialized, .error (.runtime (txt "bind: Permission denied"))⟩

/-- Both of them and a client, brought to their end in some order. -/
theorem lifecycle_sample : ∃ actions s,
    (processes startYaml anyCreate).system.run { object := ⟨{}, RegistryImpl.wellFormed_empty⟩ }
      ([.start (.provider sampleStorage), .start (.provider sampleImages),
        .start (.client sampleOptions.proxy (txt "GetList(out buffer)"))] ++ actions) = some s ∧
    s.running = [] ∧ s.object.table.offers = ∅ ∧
    ∀ p result, (.provider p, result) ∈ s.returned → result = .returned (.ok p.status) := by
  obtain ⟨t, ht⟩ : ∃ t, (processes startYaml anyCreate).system.run
      { object := ⟨{}, RegistryImpl.wellFormed_empty⟩ }
      [.start (.provider sampleStorage), .start (.provider sampleImages),
        .start (.client sampleOptions.proxy (txt "GetList(out buffer)"))] = some t := ⟨_, rfl⟩
  obtain ⟨actions, s, hrun, hidle⟩ := Pool.exists_run_idle (processes startYaml anyCreate) t
  have hall : (processes startYaml anyCreate).system.run
      { object := ⟨{}, RegistryImpl.wellFormed_empty⟩ }
      ([.start (.provider sampleStorage), .start (.provider sampleImages),
        .start (.client sampleOptions.proxy (txt "GetList(out buffer)"))] ++ actions) = some s := by
    rw [System.run_append, ht, Option.bind_some, hrun]
  have hempty : ({} : RegistryImpl).offers = ∅ := by
    ext o
    simp [RegistryImpl.offers]
  have huntaken : Untaken ⟨{}, RegistryImpl.wellFormed_empty⟩ := by
    rintro service - ⟨o, ho, -⟩
    rw [hempty] at ho
    exact ho
  obtain ⟨-, hresult, -, hoffers, -⟩ := lifecycle startYaml anyCreate huntaken hall
  refine ⟨actions, s, hall, hidle, Set.eq_empty_of_forall_notMem fun o ho => ?_, hresult⟩
  rcases hoffers o ho with hbefore | ⟨r, hr, -⟩
  · rw [FromBefore, hempty] at hbefore
    exact hbefore.1
  · rw [hidle] at hr
    cases hr

end ProviderMain

end Ssoa
