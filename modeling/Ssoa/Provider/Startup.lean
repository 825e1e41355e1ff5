import Ssoa.Registry.Remote
import Ssoa.Service.Skeleton

/-!
# How a provider starts and stops

The two providers have the same `main`, for different services. It installs and registers one
service after the other, runs the server until it is stopped, and deregisters the services. There
are three `try` blocks: when the server fails, `main` goes on to deregister and then reports
failure, but when a registration fails it returns at once.

A service is registered under the signature its class gives, and `serviceSignature()` is all that
distinguishes the classes here; `create` is what their static members `create` do. The options on
the command line are parsed or not; without them `main` does nothing.

The registry is reached through the proxy, and nobody else uses it meanwhile. What becomes of it is
told as a set of offers.

## Main results

* `ProviderMain.registerAll_cases` — the first block
* `ProviderMain.leavesNoTrace_iff` — when a provider that fails to start leaves no trace
-/

namespace Ssoa

open Directory ServiceSignature Span

/-- What `main` works on: the factory in its process, and the registry. -/
structure ProviderState where
  factory : FactoryBase (List ServiceArgument) Skeleton :=
    { hierarchyName := txt "ServiceSkeleton" }
  registry : SoundRegistry

namespace ProviderState

/-- The factory of a provider. -/
def factoryPart :
    Throwing.Part ProviderState (FactoryBase (List ServiceArgument) Skeleton) Unit where
  part := factory
  put s factory := { s with factory }
  rest _ := ()
  put_part _ := rfl
  part_put _ _ := rfl
  put_put _ _ _ := rfl
  rest_put _ _ := rfl

/-- The registry, as the provider sees it. -/
def registryPart : Throwing.Part ProviderState SoundRegistry Unit where
  part := registry
  put s registry := { s with registry }
  rest _ := ()
  put_part _ := rfl
  part_put _ _ := rfl
  put_put _ _ _ := rfl
  rest_put _ _ := rfl

/-- The triples of the registry. -/
abbrev offers (s : ProviderState) : Set (ServiceSignature × Provider) := s.registry.table.offers

end ProviderState

/-- What `main` returns. -/
inductive ExitStatus where
  | success | failure
  deriving DecidableEq

/-- The options of a provider that matter here. -/
structure ProviderOptions where
  address : Text
  port : Text
  registryAddress : Text
  registryPort : Text

/-- `Registry::initialize`. -/
def ProviderOptions.proxy (o : ProviderOptions) : Registry := ⟨o.registryAddress, o.registryPort⟩

/-- The services of the storage provider, in the order of its `main`. -/
def storageServices : List Text :=
  [txt "StoreImage(in string, in buffer)", txt "GetImage(in string, out buffer)",
    txt "GetList(out buffer)"]

/-- The services of the image manipulation provider, in the order of its `main`. -/
def imageManipulationServices : List Text :=
  [txt "RotateImage(in int, in buffer, out buffer)",
    txt "HorizontalFlipImage(in buffer, out buffer)"]

namespace ProviderMain

section Program

variable (r : Registry) (y : YamlCpp)
  (create : Text → CreatorMethod (List ServiceArgument) Skeleton) (address port : Text)

/-- `registerService<T>`: `T::install()`, then the registration. -/
def registerService (service : Text) : Throwing ProviderState Exn Unit := do
  Throwing.within ProviderState.factoryPart fun _ => FactoryBase.install service (create service)
  Throwing.within ProviderState.registryPart fun _ reg =>
    r.registerService y reg (.ofText service) address port

/-- `deregisterService<T>`. -/
def deregisterService (service : Text) : Throwing ProviderState Exn Unit :=
  Throwing.within ProviderState.registryPart fun _ reg =>
    r.deregisterService y reg (.ofText service) address port

end Program

/-- `main`, for these services, with what becomes of the server: an exception, or it was stopped. -/
def main (y : YamlCpp) (create : Text → CreatorMethod (List ServiceArgument) Skeleton)
    (services : List Text) (options : Option ProviderOptions) (server : Except Exn Unit) :
    Throwing ProviderState Exn ExitStatus :=
  match options with
  | none => return .failure
  | some o => do
    let registered ← tryCatch
      (do forM services (registerService o.proxy y create o.address o.port); return true)
      fun _ => return false
    if registered = false then return .failure
    else
      let status ← tryCatch (do liftM server; return .success) fun _ => return .failure
      -- deregister services, whatever became of the server
      let deregistered ← tryCatch
        (do forM services (deregisterService o.proxy y o.address o.port); return true)
        fun _ => return false
      if deregistered = false then return .failure else return status

/-! ### Offers of services -/

/-- Another signature of the registry has the name of the service. -/
def Taken (S : Set (ServiceSignature × Provider)) (service : Text) : Prop :=
  ∃ o ∈ S, o.1.name = (ofText service).name ∧ ¬ Same o.1 (ofText service)

/-- The offers of a provider for its services. -/
def offersOf (services : List Text) (p : Provider) : Set (ServiceSignature × Provider) :=
  {o | ∃ service ∈ services, o = (ofText service, p)}

section

variable {S : Set (ServiceSignature × Provider)} {p : Provider} {service : Text}
  {services : List Text}

theorem taken_insert {other : Text} (h : (ofText service).name ≠ (ofText other).name) :
    Taken (insert (ofText service, p) S) other ↔ Taken S other := by
  constructor
  · rintro ⟨o, rfl | ho, hname, hne⟩
    · exact absurd hname h
    · exact ⟨o, ho, hname, hne⟩
  · rintro ⟨o, ho, hname, hne⟩
    exact ⟨o, Set.mem_insert_of_mem _ ho, hname, hne⟩

theorem refused_iff_taken (h : (ofText service).isValid = true) :
    Refused Valid (fun a => a.name) Same S (ofText service) ↔ Taken S service :=
  ⟨fun hr => hr.resolve_left fun hinvalid => hinvalid h, .inr⟩

@[simp] theorem offersOf_nil : offersOf [] p = ∅ := by
  simp [offersOf]

theorem offersOf_cons :
    offersOf (service :: services) p = insert (ofText service, p) (offersOf services p) := by
  ext o
  simp [offersOf]

theorem union_offersOf_cons : S ∪ offersOf (service :: services) p =
    insert (ofText service, p) S ∪ offersOf services p := by
  rw [offersOf_cons, Set.union_insert, Set.insert_union]

theorem union_offersOf_eq_iff :
    S ∪ offersOf services p = S ↔ ∀ service ∈ services, (ofText service, p) ∈ S := by
  rw [Set.union_eq_left]
  constructor
  · exact fun h service hmem => h ⟨service, hmem, rfl⟩
  · rintro h _ ⟨service, hmem, rfl⟩
    exact h service hmem

theorem union_offersOf_diff_eq_iff : (S ∪ offersOf services p) \ offersOf services p = S ↔
    ∀ service ∈ services, (ofText service, p) ∉ S := by
  rw [Set.union_sdiff_right, sdiff_eq_left, Set.disjoint_left]
  constructor
  · exact fun h service hmem hS => h hS ⟨service, hmem, rfl⟩
  · rintro h _ hS ⟨service, hmem, rfl⟩
    exact h service hmem hS

end

/-! ### The blocks of `main` -/

section Blocks

variable {r : Registry} (y : YamlCpp)
  (create : Text → CreatorMethod (List ServiceArgument) Skeleton) (address port : Text)
  {services : List Text} {service : Text}

/-- Registering one service: refused because the name is taken, or its offer is there. -/
theorem registerService_cases (hr : r.Initialized) (hvalid : (ofText service).isValid = true)
    (s : ProviderState) (hfresh : s.factory.mappings.lookup service = none) :
    (Taken s.offers service ∧ ∃ e t,
      (registerService r y create address port service).run s = (.error e, t) ∧
        t.offers = s.offers) ∨
    (¬ Taken s.offers service ∧ ∃ t,
      (registerService r y create address port service).run s = (.ok (), t) ∧
        t.offers = insert (ofText service, (address, port)) s.offers ∧
        t.factory.mappings = (service, create service) :: s.factory.mappings) := by
  have hinstall : (FactoryBase.install service (create service)).run s.factory =
      (.ok (), { s.factory with mappings := (service, create service) :: s.factory.mappings }) := by
    obtain ⟨e, he⟩ | ⟨-, hok⟩ := FactoryBase.install_cases service (create service) s.factory
    · simp [FactoryBase.install, hfresh] at he
    · exact hok
  have hspec := s.registry.wellFormed.register (ofText service) address port
  have hremote := Registry.registerService_of_isValid y hr s.registry hvalid address port
  have hrun : (registerService r y create address port service).run s =
      ((Registry.registrationOutcome (s.registry.registerService (ofText service) address port).1),
        { factory := { s.factory with mappings := (service, create service) :: s.factory.mappings },
          registry := (s.registry.registerService (ofText service) address port).2 }) := by
    rw [registerService, Throwing.run_bind_of_ok
      (Throwing.run_within_of_eq ProviderState.factoryPart (x := fun _ => _) hinstall)]
    exact Throwing.run_within_of_eq ProviderState.registryPart (x := fun _ reg => _) hremote
  rw [hrun]
  cases hdone : (s.registry.table.registerService (ofText service) address port).1 with
  | error e =>
    rw [hdone] at hspec
    have hsame : (s.registry.registerService (ofText service) address port).2.table.offers =
        s.offers := hspec.unchanged rfl
    have hfst : (s.registry.registerService (ofText service) address port).1 = .error e := hdone
    rw [hfst]
    exact .inl ⟨(refused_iff_taken hvalid).mp (hspec.eq_none_iff.mp rfl), _, _, rfl, hsame⟩
  | ok added =>
    rw [hdone] at hspec
    have hadded : (some added : Option Bool) ≠ none := by simp
    have hfst : (s.registry.registerService (ofText service) address port).1 = .ok added := hdone
    rw [hfst]
    have hfree : ¬ Taken s.offers service := fun htaken =>
      hadded (hspec.eq_none_iff.mpr ((refused_iff_taken hvalid).mpr htaken))
    exact .inr ⟨hfree, _, rfl, hspec.insert hadded, rfl⟩

/-- The services of a program: valid, and no two of one name. -/
structure WellNamed (services : List Text) : Prop where
  valid : ∀ service ∈ services, (ofText service).isValid = true
  names : services.Pairwise fun a b => (ofText a).name ≠ (ofText b).name

theorem WellNamed.tail (h : WellNamed (service :: services)) : WellNamed services :=
  ⟨fun x hx => h.valid x (List.mem_cons_of_mem _ hx), (List.pairwise_cons.mp h.names).2⟩

theorem WellNamed.name_ne (h : WellNamed (service :: services)) {other : Text}
    (hother : other ∈ services) : (ofText service).name ≠ (ofText other).name :=
  (List.pairwise_cons.mp h.names).1 other hother

/-- **The first block**: all services are registered, or those before the first whose name is
taken. -/
theorem registerAll_cases (hr : r.Initialized) (hservices : WellNamed services) (s : ProviderState)
    (hfresh : ∀ service ∈ services, s.factory.mappings.lookup service = none) :
    ((∀ service ∈ services, ¬ Taken s.offers service) ∧ ∃ t,
      (forM services (registerService r y create address port)).run s = (.ok (), t) ∧
        t.offers = s.offers ∪ offersOf services (address, port)) ∨
    ∃ earlier service later, services = earlier ++ service :: later ∧
      (∀ other ∈ earlier, ¬ Taken s.offers other) ∧ Taken s.offers service ∧ ∃ e t,
        (forM services (registerService r y create address port)).run s = (.error e, t) ∧
          t.offers = s.offers ∪ offersOf earlier (address, port) := by
  induction services generalizing s with
  | nil => exact .inl ⟨fun _ h => absurd h List.not_mem_nil, s, rfl, by simp⟩
  | cons service services ih =>
    rw [List.forM_cons]
    obtain ⟨htaken, e, t, hrun, hsame⟩ | ⟨hfree, t, hrun, hoffers, hmappings⟩ :=
      registerService_cases y create address port hr (hservices.valid service List.mem_cons_self) s
        (hfresh service List.mem_cons_self)
    · exact .inr ⟨[], service, services, rfl, fun _ h => absurd h List.not_mem_nil, htaken, e, t,
        Throwing.run_bind_of_error hrun, by simpa using hsame⟩
    · rw [Throwing.run_bind_of_ok hrun]
      have hfresh' : ∀ other ∈ services, t.factory.mappings.lookup other = none := by
        intro other hother
        have hne : other ≠ service := fun heq => hservices.name_ne hother (heq ▸ rfl)
        rw [hmappings, List.lookup_cons, beq_eq_false_iff_ne.mpr hne]
        exact hfresh other (List.mem_cons_of_mem _ hother)
      -- the new offer takes no other name
      have htaken : ∀ other ∈ services, Taken t.offers other ↔ Taken s.offers other := by
        intro other hother
        rw [hoffers]
        exact taken_insert (hservices.name_ne hother)
      obtain ⟨hfrees, u, hrun', hoffers'⟩ |
        ⟨earlier, other, later, rfl, hfrees, hother, e, u, hrun', hoffers'⟩ :=
          ih hservices.tail t hfresh'
      · refine .inl ⟨?_, u, hrun', by rw [hoffers', hoffers, union_offersOf_cons]⟩
        rintro other (_ | ⟨_, hmem⟩)
        · exact hfree
        · exact (htaken other hmem).not.mp (hfrees other hmem)
      · refine .inr ⟨service :: earlier, other, later, rfl, ?_,
          (htaken other (by simp)).mp hother, e, u, hrun',
          by rw [hoffers', hoffers, union_offersOf_cons]⟩
        rintro other' (_ | ⟨_, hmem⟩)
        · exact hfree
        · exact (htaken other' (List.mem_append_left _ hmem)).not.mp (hfrees other' hmem)

/-- Deregistering one service takes its offer away and does not throw. -/
theorem deregisterService_eq (hr : r.Initialized) (hvalid : (ofText service).isValid = true)
    (s : ProviderState) : ∃ t, (deregisterService r y address port service).run s = (.ok (), t) ∧
      t.offers = s.offers \ {(ofText service, (address, port))} := by
  have hremote := Registry.deregisterService_of_isValid y hr s.registry hvalid address port
  refine ⟨_, Throwing.run_within_of_eq ProviderState.registryPart (x := fun _ reg => _) hremote, ?_⟩
  have hany : ofText service ≠ .any := by
    intro heq
    rw [heq] at hvalid
    cases hvalid
  have hwf := s.registry.wellFormed
  have hremove := (hwf.deregister hany address port).remove
  -- signatures of the table are valid, so those written alike are equal
  have hsame : ∀ o ∈ s.offers, Same o.1 (ofText service) ↔ o.1 = ofText service := by
    intro o ho
    obtain ⟨data, hdata, hsignature, -⟩ := hwf.mem_offers.mp ho
    refine ⟨RegistryImpl.eq_of_equals (hsignature ▸ (hwf _ _ hdata).isValid) hvalid, fun heq => ?_⟩
    rw [heq]
    exact same_equivalence.refl _
  refine hremove.trans (Set.ext fun o => and_congr_right fun ho => ?_)
  rw [hsame o ho, Set.mem_singleton_iff]
  exact not_congr ⟨fun h => Prod.ext h.1 h.2, fun h => ⟨congrArg Prod.fst h, congrArg Prod.snd h⟩⟩

/-- **The last block** takes away all offers of the services. -/
theorem deregisterAll_eq (hr : r.Initialized)
    (hvalid : ∀ service ∈ services, (ofText service).isValid = true) (s : ProviderState) :
    ∃ t, (forM services (deregisterService r y address port)).run s = (.ok (), t) ∧
      t.offers = s.offers \ offersOf services (address, port) := by
  induction services generalizing s with
  | nil => exact ⟨s, rfl, by simp⟩
  | cons service services ih =>
    obtain ⟨t, hrun, hoffers⟩ := deregisterService_eq y address port hr
      (hvalid service List.mem_cons_self) s
    obtain ⟨u, hrun', hoffers'⟩ :=
      ih (fun other hother => hvalid other (List.mem_cons_of_mem _ hother)) t
    refine ⟨u, by rw [List.forM_cons, Throwing.run_bind_of_ok hrun, hrun'], ?_⟩
    rw [hoffers', hoffers, offersOf_cons, sdiff_sdiff_left]
    rfl

end Blocks

/-! ### What is left when a provider fails -/

variable (y : YamlCpp) (create : Text → CreatorMethod (List ServiceArgument) Skeleton)
  {services : List Text} {o : ProviderOptions} (server : Except Exn Unit) {registry : SoundRegistry}

/-- When `main` reports failure, the registry holds the triples from before the start. -/
def LeavesNoTrace (y : YamlCpp) (create : Text → CreatorMethod (List ServiceArgument) Skeleton)
    (services : List Text) (options : Option ProviderOptions) (server : Except Exn Unit)
    (registry : SoundRegistry) : Prop :=
  ((main y create services options server).run { registry }).1 = .ok .failure →
    ((main y create services options server).run { registry }).2.offers = registry.table.offers

/-- The first service whose name is taken, if there is one, comes after services that the provider
offered before. If no name is taken and the server fails, it offered none of its services before. -/
structure Untraceable (S : Set (ServiceSignature × Provider)) (services : List Text) (p : Provider)
    (server : Except Exn Unit) : Prop where
  taken : ∀ earlier service later, services = earlier ++ service :: later →
    (∀ other ∈ earlier, ¬ Taken S other) → Taken S service →
      ∀ other ∈ earlier, (ofText other, p) ∈ S
  free : (∀ service ∈ services, ¬ Taken S service) → ∀ e, server = .error e →
    ∀ service ∈ services, (ofText service, p) ∉ S

/-- A name is taken: `main` returns, and the services before it stay registered. -/
theorem main_of_taken (hr : o.proxy.Initialized) (hservices : WellNamed services)
    (htaken : ∃ service ∈ services, Taken registry.table.offers service) :
    ∃ earlier service later t, services = earlier ++ service :: later ∧
      (∀ other ∈ earlier, ¬ Taken registry.table.offers other) ∧
      Taken registry.table.offers service ∧
      (main y create services (some o) server).run { registry } = (.ok .failure, t) ∧
      t.offers = registry.table.offers ∪ offersOf earlier (o.address, o.port) := by
  obtain ⟨hfree, -⟩ | ⟨earlier, service, later, heq, hfree, hservice, e, t, hrun, hoffers⟩ :=
    registerAll_cases y create o.address o.port hr hservices { registry } fun _ _ => rfl
  · obtain ⟨service, hmem, hservice⟩ := htaken
    exact absurd hservice (hfree service hmem)
  · refine ⟨earlier, service, later, t, heq, hfree, hservice, ?_, hoffers⟩
    rw [main, Throwing.run_bind_of_ok (Throwing.run_block_of_error hrun true false)]
    rfl

/-- No name is taken: the services are registered, and deregistered when the server is done. -/
theorem main_of_free (hr : o.proxy.Initialized) (hservices : WellNamed services)
    (hfree : ∀ service ∈ services, ¬ Taken registry.table.offers service) :
    ∃ t, (main y create services (some o) server).run { registry } =
        (.ok (if server = .ok () then .success else .failure), t) ∧
      t.offers = (registry.table.offers ∪ offersOf services (o.address, o.port)) \
        offersOf services (o.address, o.port) := by
  obtain ⟨-, t, hrun, hoffers⟩ | ⟨earlier, service, later, rfl, -, hservice, -⟩ :=
    registerAll_cases y create o.address o.port hr hservices { registry } fun _ _ => rfl
  · obtain ⟨u, hrun', hoffers'⟩ := deregisterAll_eq y o.address o.port hr hservices.valid t
    have hserver : (tryCatch (do liftM server; return .success) fun _ => return .failure :
        Throwing ProviderState Exn ExitStatus).run t =
          (.ok (if server = .ok () then .success else .failure), t) := by
      cases server with
      | ok _ => exact Throwing.run_block_of_ok rfl _ _
      | error e => exact Throwing.run_block_of_error rfl _ _
    refine ⟨u, ?_, by rw [hoffers', hoffers]⟩
    rw [main, Throwing.run_bind_of_ok (Throwing.run_block_of_ok hrun true false)]
    simp only [Bool.true_eq_false, if_false]
    rw [Throwing.run_bind_of_ok hserver,
      Throwing.run_bind_of_ok (Throwing.run_block_of_ok hrun' true false)]
    rfl
  · exact absurd hservice (hfree service (by simp))

/-- With a taken name, what decides is whether the services before it were offered. -/
theorem leavesNoTrace_of_taken (hr : o.proxy.Initialized) (hservices : WellNamed services)
    (htaken : ∃ service ∈ services, Taken registry.table.offers service) :
    ∃ earlier service later, services = earlier ++ service :: later ∧
      (∀ other ∈ earlier, ¬ Taken registry.table.offers other) ∧
      Taken registry.table.offers service ∧
      (LeavesNoTrace y create services (some o) server registry ↔
        ∀ other ∈ earlier, (ofText other, (o.address, o.port)) ∈ registry.table.offers) := by
  obtain ⟨earlier, service, later, t, heq, hfree, hservice, hrun, hoffers⟩ :=
    main_of_taken y create server hr hservices htaken
  refine ⟨earlier, service, later, heq, hfree, hservice, ?_⟩
  rw [← union_offersOf_eq_iff, ← hoffers, LeavesNoTrace, hrun]
  exact ⟨fun h => h rfl, fun h _ => h⟩

/-- With no taken name, what decides is whether a service was offered before the server failed. -/
theorem leavesNoTrace_of_free (hr : o.proxy.Initialized) (hservices : WellNamed services)
    (hfree : ∀ service ∈ services, ¬ Taken registry.table.offers service) :
    LeavesNoTrace y create services (some o) server registry ↔ ∀ e, server = .error e →
      ∀ service ∈ services, (ofText service, (o.address, o.port)) ∉ registry.table.offers := by
  obtain ⟨t, hrun, hoffers⟩ :=
    main_of_free y create server hr hservices hfree
  rw [← union_offersOf_diff_eq_iff, ← hoffers, LeavesNoTrace, hrun]
  cases server with
  | ok _ => simp
  | error e => simp

theorem leavesNoTrace_none : LeavesNoTrace y create services none server registry :=
  fun _ => rfl

theorem wellNamed_storageServices : WellNamed storageServices :=
  ⟨by decide +kernel, by decide +kernel⟩

theorem wellNamed_imageManipulationServices : WellNamed imageManipulationServices :=
  ⟨by decide +kernel, by decide +kernel⟩

theorem wellNamed_of_mem
    (h : services ∈ [storageServices, imageManipulationServices]) : WellNamed services := by
  rcases List.mem_pair.mp h with rfl | rfl
  · exact wellNamed_storageServices
  · exact wellNamed_imageManipulationServices

/-- **When a provider that fails to start leaves no trace.** -/
theorem leavesNoTrace_iff (y : YamlCpp)
    (create : Text → CreatorMethod (List ServiceArgument) Skeleton) (services : List Text)
    (hprogram : services ∈ [storageServices, imageManipulationServices])
    (options : Option ProviderOptions) (hr : ∀ o ∈ options, o.proxy.Initialized)
    (server : Except Exn Unit) (registry : SoundRegistry) :
    LeavesNoTrace y create services options server registry ↔
      ∀ o ∈ options, Untraceable registry.table.offers services (o.address, o.port) server := by
  have hservices := wellNamed_of_mem hprogram
  cases options with
  | none => exact ⟨fun _ _ h => (by cases h), fun _ => leavesNoTrace_none y create server⟩
  | some o =>
    simp only [Option.mem_some_iff, forall_eq'] at hr ⊢
    by_cases htaken : ∃ service ∈ services, Taken registry.table.offers service
    · obtain ⟨earlier, service, later, heq, hfree, hservice, hiff⟩ :=
        leavesNoTrace_of_taken y create server hr hservices htaken
      rw [hiff]
      constructor
      · refine fun h => ⟨fun earlier' service' later' heq' hfree' hservice' => ?_, fun hnone => ?_⟩
        · rw [← (split_unique (heq.symm.trans heq') hfree hservice hfree' hservice').1]
          exact h
        · exact absurd hservice (hnone service (by simp [heq]))
      · exact fun h => h.taken earlier service later heq hfree hservice
    · have hnone : ∀ service ∈ services, ¬ Taken registry.table.offers service :=
        fun service hmem hservice => htaken ⟨service, hmem, hservice⟩
      rw [leavesNoTrace_of_free y create server hr hservices hnone]
      constructor
      · refine fun h => ⟨fun earlier service later heq _ hservice => ?_, fun _ => h⟩
        exact absurd hservice (hnone service (by simp [heq]))
      · exact fun h => h.free hnone

/-! ### A storage provider that cannot start -/

/-- Its command line. -/
def sampleOptions : ProviderOptions :=
  ⟨txt "127.0.0.1", txt "1300", txt "127.0.0.1", txt "1200"⟩

theorem sampleOptions_initialized : sampleOptions.proxy.Initialized := ⟨by decide, by decide⟩

/-- The messages between the provider and the registry. -/
def startMessages : List RegistryMessage :=
  (storageServices.flatMap fun service => [false, true].map fun deregister =>
    .registrationRequest ⟨ofText service, txt "127.0.0.1", txt "1300", deregister⟩) ++
  [.registrationResponse ⟨true, txt "OK"⟩,
    .registrationResponse ⟨false,
      txt "Is already registered a service with same name and different signature."⟩]

/-- A library that writes them as yaml-cpp does. -/
noncomputable def startYaml : YamlCpp :=
  .ofTexts (startMessages.map RegistryMessage.document) (by decide +kernel) (by decide +kernel)

/-- The registry after one registration. -/
def registryWith (service host port : Text) : SoundRegistry :=
  .ofReachable
    (RegistryImpl.machine.runFrom RegistryImpl.machine.init
      [.registerService (ofText service) host port]).2
    ⟨_, rfl⟩

theorem registryWith_offers (service host port : Text) (h : (ofText service).isValid = true) :
    (registryWith service host port).table.offers = {(ofText service, (host, port))} := by
  have hspec := RegistryImpl.wellFormed_empty.register (ofText service) host port
  have hok : (({} : RegistryImpl).registerService (ofText service) host port).1 = .ok true := by
    rw [RegistryImpl.registerService_of_none h (by simp)]
  have hempty : ({} : RegistryImpl).offers = ∅ := by
    ext o
    simp [RegistryImpl.offers]
  rw [hempty] at hspec
  have hinsert := hspec.insert (by rw [hok]; simp [Except.toOption])
  rw [← insert_empty_eq, ← hinsert]
  rfl

/-- What the skeletons do does not matter here. -/
def anyCreate (_ : Text) : CreatorMethod (List ServiceArgument) Skeleton :=
  fun _ => .error (.runtime (txt "not called"))

/-- The port is in use, and a provider on another host offers one of the services. -/
theorem leavesNoTrace_storageServices :
    let registry := registryWith (txt "GetList(out buffer)") (txt "10.0.0.1") (txt "1400")
    registry.table.offers = {(ofText (txt "GetList(out buffer)"), (txt "10.0.0.1", txt "1400"))} ∧
      storageServices ∈ [storageServices, imageManipulationServices] ∧
      (∀ o ∈ some sampleOptions, o.proxy.Initialized) ∧
      (LeavesNoTrace startYaml anyCreate storageServices (some sampleOptions)
          (.error (.runtime (txt "bind: Address already in use"))) registry ↔
        ∀ o ∈ some sampleOptions, Untraceable registry.table.offers storageServices
          (o.address, o.port) (.error (.runtime (txt "bind: Address already in use")))) :=
  have hinit : ∀ o ∈ some sampleOptions, o.proxy.Initialized := fun _ ho =>
    Option.mem_some.mp ho ▸ sampleOptions_initialized
  ⟨registryWith_offers _ _ _ (by decide +kernel), List.mem_cons_self, hinit,
    leavesNoTrace_iff startYaml anyCreate storageServices List.mem_cons_self (some sampleOptions)
      hinit _ _⟩

/-- The name `GetImage` is taken by a signature of another provider: `StoreImage` stays registered.
The port is in use by another instance: its registration is gone. -/
theorem provider_leaves_trace :
    ¬ LeavesNoTrace startYaml anyCreate storageServices (some sampleOptions) (.ok ())
        (registryWith (txt "GetImage(in string)") (txt "10.0.0.1") (txt "1400")) ∧
      ¬ LeavesNoTrace startYaml anyCreate storageServices (some sampleOptions)
        (.error (.runtime (txt "bind: Address already in use")))
        (registryWith (txt "GetList(out buffer)") (txt "127.0.0.1") (txt "1300")) := by
  constructor
  · have hoffers := registryWith_offers (txt "GetImage(in string)") (txt "10.0.0.1") (txt "1400")
      (by decide +kernel)
    have hstore : ¬ Taken (registryWith (txt "GetImage(in string)") (txt "10.0.0.1")
        (txt "1400")).table.offers (txt "StoreImage(in string, in buffer)") := by
      rw [hoffers]
      rintro ⟨o, rfl, hname, -⟩
      exact absurd hname (by decide +kernel)
    have hget : Taken (registryWith (txt "GetImage(in string)") (txt "10.0.0.1")
        (txt "1400")).table.offers (txt "GetImage(in string, out buffer)") := by
      rw [hoffers]
      exact ⟨_, rfl, by decide +kernel, by decide +kernel⟩
    obtain ⟨earlier, service, later, heq, hfree, hservice, hiff⟩ :=
      leavesNoTrace_of_taken startYaml anyCreate (.ok ())
        sampleOptions_initialized wellNamed_storageServices ⟨_, by simp [storageServices], hget⟩
    have hearlier : earlier = [txt "StoreImage(in string, in buffer)"] :=
      (split_unique (heq.symm.trans (b := storageServices) rfl) hfree hservice
        (by simpa using hstore) hget).1
    rw [hiff, hearlier, hoffers]
    intro h
    have hname := congrArg (fun o => o.1.name) (Set.mem_singleton_iff.mp (h _ List.mem_cons_self))
    exact absurd hname (by decide +kernel)
  · have hoffers := registryWith_offers (txt "GetList(out buffer)") (txt "127.0.0.1") (txt "1300")
      (by decide +kernel)
    have hfree : ∀ service ∈ storageServices, ¬ Taken (registryWith (txt "GetList(out buffer)")
        (txt "127.0.0.1") (txt "1300")).table.offers service := by
      rw [hoffers]
      rintro service hmem ⟨o, rfl, hname, hne⟩
      revert service hmem
      decide +kernel
    rw [leavesNoTrace_of_free startYaml anyCreate _ sampleOptions_initialized
      wellNamed_storageServices hfree, hoffers]
    intro h
    exact h _ rfl (txt "GetList(out buffer)") (by simp [storageServices]) rfl

end ProviderMain

end Ssoa
