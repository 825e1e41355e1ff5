import Ssoa.Client.Provenance
import Ssoa.Provider.Lifecycle

/-!
# The rounds of a client when nothing goes wrong

What the whole system is for: when both providers are registered, all connections are whole and the
image manipulation provider can use its temporary files, every round of a client that runs alone
takes an image, has it turned or mirrored, and stores the result under the same name. `Round` says
this in terms of images, without registry, stubs, requests or files.

The files of the storage provider can be read and written. The registry is the one that is modelled
here. It may know any number of addresses for each service, as long as the provider is there.

## Main results

* `Providers.Works.round_of_iteration` — the body of the loop is a round
* `Providers.rounds_of_main` — the loop is one round after another
-/

namespace Ssoa

open StorageProvider StorageRequest StorageService

/-! ### Rounds -/

section Spec

variable {T : Type} [Inhabited T]

namespace Client

/-- What a client begins a round with, when its `n`-th random number is next and these images are
stored. -/
inductive Picks (c : Client) (stored : ImageName → Option (List Byte)) (n : ℕ) :
    Except Exn (Option (ImageName × List Byte) × ℕ) → Prop
  | noFolder {e : Exn} (hdisk : c.rand n % 2 = 1) (hfiles : c.disk.files = .error e) :
      Picks c stored n (.error e)
  | noFile (hdisk : c.rand n % 2 = 1) (hfiles : c.disk.files = .ok []) :
      Picks c stored n (.ok (none, n + 1))
  | unreadable {files : List DiskFile} {file : DiskFile} (hdisk : c.rand n % 2 = 1)
      (hfiles : c.disk.files = .ok files)
      (hfile : files[c.rand (n + 1) % files.length]? = some file) (hcontent : file.content = none) :
      Picks c stored n (.error c.disk.resize)
  | file {files : List DiskFile} {file : DiskFile} {content : List Byte}
      (hdisk : c.rand n % 2 = 1) (hfiles : c.disk.files = .ok files)
      (hfile : files[c.rand (n + 1) % files.length]? = some file)
      (hcontent : file.content = some content) :
      Picks c stored n (.ok (some (file.name, content), n + 2))
  | nothingStored (hstorage : c.rand n % 2 ≠ 1) (hnone : ∀ name, stored name = none) :
      Picks c stored n (.ok (none, n + 1))
  | stored {names : List ImageName} {name : ImageName} {content : List Byte}
      (hstorage : c.rand n % 2 ≠ 1) (hnodup : names.Nodup)
      (hnames : ∀ name, name ∈ names ↔ stored name ≠ none)
      (hname : names[c.rand (n + 1) % names.length]? = some name)
      (hcontent : stored name = some content) :
      Picks c stored n (.ok (some (name, content), n + 2))

/-- The request that is made for an image, and the number of the next random number then. -/
def request (c : Client) (n : ℕ) (content : List Byte) : ImageRequest × ℕ :=
  if c.rand n % 2 = 1 then
    (.rotateImage (BitVec.ofNat 32 (c.rand (n + 1) % 360)) content, n + 2)
  else (.horizontalFlipImage content, n + 1)

end Client

/-- What a round of a client does to the storage, and what it returns or throws. -/
inductive Round (sys : ImageSystem T) (c : Client) (t : FileSystem) (n : ℕ) :
    Except Exn (Unit × ℕ) → FileSystem → Prop
  | stopped {e : Exn} (hpicks : c.Picks (contents t) n (.error e)) : Round sys c t n (.error e) t
  | noImage {n' : ℕ} (hpicks : c.Picks (contents t) n (.ok (none, n'))) :
      Round sys c t n (.ok ((), n')) t
  | notMade {name : ImageName} {content : List Byte} {n' : ℕ} {filename : Text} {e : Exn}
      (hpicks : c.Picks (contents t) n (.ok (some (name, content), n')))
      (hload : sys.loadJpeg filename content = .error e) :
      Round sys c t n (.ok ((), (c.request n' content).2)) t
  /-- The image manipulation provider ends, and then the client. -/
  | ended {name : ImageName} {content : List Byte} {n' : ℕ} {e : Exn}
      (hpicks : c.Picks (contents t) n (.ok (some (name, content), n')))
      (hends : (c.request n' content).1.Ends sys) : Round sys c t n (.error e) t
  | stored {name : ImageName} {content output : List Byte} {n' : ℕ} {t' : FileSystem}
      (hpicks : c.Picks (contents t) n (.ok (some (name, content), n')))
      (hmakes : (c.request n' content).1.Makes sys output) (hstorable : Storable t name)
      (hstored : contents t' = Function.update (contents t) name (some output)) :
      Round sys c t n (.ok ((), (c.request n' content).2)) t'
  | refused {name : ImageName} {content output : List Byte} {n' : ℕ} {t' : FileSystem}
      (hpicks : c.Picks (contents t) n (.ok (some (name, content), n')))
      (hmakes : (c.request n' content).1.Makes sys output) (hstorable : ¬ Storable t name)
      (hsame : contents t' = contents t) :
      Round sys c t n (.ok ((), (c.request n' content).2)) t'

/-- One round after another, until one of them throws. -/
inductive Rounds (sys : ImageSystem T) (c : Client) :
    ℕ → FileSystem → ℕ → Except Exn (Unit × ℕ) → FileSystem → Prop
  | done {t : FileSystem} {n : ℕ} : Rounds sys c 0 t n (.ok ((), n)) t
  | stopped {times : ℕ} {t t' : FileSystem} {n : ℕ} {e : Exn}
      (h : Round sys c t n (.error e) t') : Rounds sys c (times + 1) t n (.error e) t'
  | next {times : ℕ} {t t' t'' : FileSystem} {n n' : ℕ} {result : Except Exn (Unit × ℕ)}
      (h : Round sys c t n (.ok ((), n')) t') (hrest : Rounds sys c times t' n' result t'') :
      Rounds sys c (times + 1) t n result t''

end Spec

/-! ### A client alone -/

namespace Client

variable {S α β : Type}

/-- What comes of a part of the program of a client that runs alone, from its `n`-th random number
on. -/
def Alone (x : Steps S α) (n : ℕ) (s : S) (Q : Except Exn (α × ℕ) → S → Prop) : Prop :=
  Q ((Routine.toThrowing (x.run n)).run s).1 ((Routine.toThrowing (x.run n)).run s).2

section Alone

variable {x : Steps S α} {f : α → Steps S β} {n : ℕ} {s : S} {Q : Except Exn (α × ℕ) → S → Prop}
  {R : Except Exn (β × ℕ) → S → Prop}

/-- **One part after another.** -/
theorem Alone.bind (hx : Alone x n s Q) (herror : ∀ e s', Q (.error e) s' → R (.error e) s')
    (hok : ∀ a n' s', Q (.ok (a, n')) s' → Alone (f a) n' s' R) : Alone (x >>= f) n s R := by
  rw [Alone, StateT.run_bind, Routine.toThrowing_bind]
  rw [Alone] at hx
  rcases hrun : (Routine.toThrowing (x.run n)).run s with ⟨e | ⟨a, n'⟩, s'⟩
  · rw [hrun] at hx
    rw [Throwing.run_bind_of_error hrun]
    exact herror e s' hx
  · rw [hrun] at hx
    rw [Throwing.run_bind_of_ok hrun]
    exact hok a n' s' hx

theorem Alone.mono {Q' : Except Exn (α × ℕ) → S → Prop} (hx : Alone x n s Q)
    (hQ : ∀ result s', Q result s' → Q' result s') : Alone x n s Q' :=
  hQ _ _ hx

theorem alone_pure {a : α} (h : Q (.ok (a, n)) s) : Alone (pure a) n s Q := h

theorem alone_lift_bind {y : Except Exn α} (herror : ∀ e, y = .error e → R (.error e) s)
    (hok : ∀ a, y = .ok a → Alone (f a) n s R) : Alone (liftM y >>= f) n s R := by
  cases y with
  | error e => exact herror e rfl
  | ok a => exact hok a rfl

theorem alone_random_bind (c : Client) {f : ℕ → Steps S β} (h : Alone (f (c.rand n)) (n + 1) s R) :
    Alone (c.random >>= f) n s R := h

theorem alone_choose_bind (c : Client) {list : List α} (hne : list ≠ [])
    (h : ∀ a, list[c.rand n % list.length]? = some a → Alone (f a) (n + 1) s R) :
    Alone (c.choose list hne >>= f) n s R :=
  h _ (List.getElem?_eq_getElem (Nat.mod_lt _ (List.length_pos_of_ne_nil hne)))

theorem alone_step {y : Throwing S Exn α} (h : Q ((y.run s).1.map fun a => (a, n)) (y.run s).2) :
    Alone (step y) n s Q := by
  rw [Alone, step, StateT.run_lift, Routine.toThrowing_bind, Routine.toThrowing_atomically]
  rcases hrun : y.run s with ⟨e | a, s'⟩
  · rw [hrun] at h
    rw [Throwing.run_bind_of_error hrun]
    exact h
  · rw [hrun] at h
    rw [Throwing.run_bind_of_ok hrun]
    exact h

end Alone

end Client

/-! ### A system that works -/

namespace Providers

open Client ServiceSignature

variable {T ι : Type} [Inhabited T]

/-- Somebody is registered for the service, and whoever is, is this provider and listens. -/
structure Announced (hosts : Hosts (World SoundRegistry))
    (offers : Set (ServiceSignature × Provider)) (service : Text)
    (q : Installation (World SoundRegistry)) : Prop where
  offered : ∃ o ∈ offers, o.1.name = (ServiceSignature.ofText service).name
  listening : ∀ o ∈ offers, o.1.name = (ServiceSignature.ofText service).name →
    ∀ n, hosts.listening n o.2.1 o.2.2 = some q

/-- Both providers are registered, all connections are whole, and the image manipulation provider
can use its temporary files. -/
structure Works (p : Providers T) (hosts : Hosts (World SoundRegistry))
    (offers : Set (ServiceSignature × Provider)) : Prop where
  storage : ∀ service ∈ storageServices, Announced hosts offers service p.storageInstallation
  images : ∀ service ∈ imageManipulationServices,
    Announced hosts offers service p.imagesInstallation
  whole : ∀ n, (hosts.link n).Whole
  folder : ∃ folder, p.images.temporaryFolder = .ok folder
  attempts : ∀ n, (p.attempts n).Succeeds

/-- The state of the registry and of the storage. -/
structure Ready (offers : Set (ServiceSignature × Provider)) (t : FileSystem)
    (s : World SoundRegistry × ℕ) : Prop where
  registry : s.1.registry.table.offers = offers
  storage : s.1.storage = t

/-- `Registry::getProvider` of a client, which works on the registry. -/
def remoteLookup (r : Registry) (y : YamlCpp) (service : Text) :
    Throwing SoundRegistry Exn Provider :=
  fun registry => r.getProvider y registry service

section Works

variable {p : Providers T} {hosts : Hosts (World SoundRegistry)} {r : Registry} {y : YamlCpp}
  {offers : Set (ServiceSignature × Provider)} {t : FileSystem} {s : World SoundRegistry × ℕ}
  {n : ℕ} {service : Text} {q : Installation (World SoundRegistry)}

/-- **The registry names somebody who listens**, and keeps all offers. -/
theorem Announced.lookup (h : Announced hosts offers service q) (hr : r.Initialized)
    (hvalid : (ServiceSignature.ofText service).isValid = true) {registry : SoundRegistry}
    (hoffers : registry.table.offers = offers) :
    ∃ host port registry', (remoteLookup r y service).run registry =
        (.ok (host, port), registry') ∧ registry'.table.offers = offers ∧
      ∀ n, hosts.listening n host port = some q := by
  obtain ⟨hsame, hcases⟩ := ProviderMain.getProvider_cases (y := y) hr registry service
  have hreread := ServiceSignature.reread_of_isValid hvalid
  rw [hreread, hreread, hoffers] at hcases
  obtain ⟨⟨host, port⟩, hanswer, o, ho, hname, hpair⟩ | ⟨-, hnone⟩ := hcases
  · have hlistening := h.listening o ho hname
    rw [hpair] at hlistening
    exact ⟨host, port, _, Prod.ext hanswer rfl, hsame.trans hoffers, hlistening⟩
  · obtain ⟨o, ho, hname⟩ := h.offered
    exact absurd hname (hnone o ho)

/-- A question to the registry. -/
theorem Announced.alone_provider (h : Announced hosts offers service q) (hr : r.Initialized)
    (hvalid : (ServiceSignature.ofText service).isValid = true)
    (hcanonical : (ServiceSignature.ofText service).signature = service)
    (hs : Ready offers t s) :
    Alone (provider (environment y.toYamlLibrary (remoteLookup r y) hosts) (.ofText service)) n s
      fun result s' => ∃ host port, result = .ok ((host, port), n) ∧ Ready offers t s' ∧
        ∀ n, hosts.listening n host port = some q := by
  obtain ⟨host, port, registry', hrun, hoffers, hlistening⟩ :=
    h.lookup (y := y) hr hvalid hs.registry
  refine alone_step ?_
  have hstep : ((environment y.toYamlLibrary (remoteLookup r y) hosts).getProvider
      (ServiceSignature.ofText service).signature).run s =
        (.ok (host, port), World.registryPart.put s registry') := by
    rw [hcanonical]
    exact Throwing.run_within_of_eq World.registryPart (x := fun _ => remoteLookup r y service) hrun
  rw [hstep]
  exact ⟨host, port, rfl, ⟨hoffers, hs.storage⟩, hlistening⟩

omit [Inhabited T] in
theorem storage_target {host port : Text}
    (h : ∀ n, hosts.listening n host port = some p.storageInstallation) (request : StorageRequest)
    (n : ℕ) : hosts.target n (request.stub host port) =
      some ((request.serviceClass p.storage).onPart World.storagePart) := by
  show (hosts.listening n host port).bind _ = _
  rw [h n, Option.bind_some, storageInstallation, Installation.classOf_onPart]
  exact congrArg (Option.map _) (request.classOf_installation p.storage)

theorem images_target {host port : Text}
    (h : ∀ n, hosts.listening n host port = some p.imagesInstallation) (request : ImageRequest)
    (n : ℕ) : hosts.target n (request.stub host port) =
      some ((request.serviceClass p.images p.attempts).onPart World.imagesPart) := by
  show (hosts.listening n host port).bind _ = _
  rw [h n, Option.bind_some, imagesInstallation, Installation.classOf_onPart]
  exact congrArg (Option.map _) (request.classOf_installation p.images p.attempts)

variable {start : FileSystem} {clients : ι → Client} {names : Finset ImageName} {host port : Text}

/-- A request for the storage provider. -/
theorem Works.storage_call (h : p.Works hosts offers) (hfits : p.Fits start clients names)
    (hkept : p.Kept start clients t)
    (hlistening : ∀ n, hosts.listening n host port = some p.storageInstallation)
    (request : StorageRequest) (hsmall : request.IsSmall) (hs : Ready offers t s) :
    let called := request.call y.toYamlLibrary (World.network hosts y.toYamlLibrary) host port {} s
    Ready offers (request.answer p.storage t).2 called.2 ∧
      Exact (contents t) request {} called.1 (contents (request.answer p.storage t).2) := by
  have htarget := storage_target hlistening request
  rw [storage_call_mortal hsmall fun n k hk => Option.some.inj (hk.symm.trans (htarget n))]
  intro called
  obtain ⟨w, k⟩ := s
  obtain ⟨hregistry, rfl⟩ := hs
  obtain ⟨answer, hcall, hexact⟩ := call_of_whole y World.storagePart ⟨request, hsmall⟩
    (htarget k) (h.whole k) (w := w) hkept.onlyImages
    (hkept.smallContents hfits) {}
  have hcalled : called = _ := hcall
  rw [hcalled]
  exact ⟨⟨hregistry, rfl⟩, hexact⟩

/-- A call of `GetList`. -/
theorem Works.alone_getList (h : p.Works hosts offers) (hfits : p.Fits start clients names)
    (hkept : p.Kept start clients t)
    (hlistening : ∀ n, hosts.listening n host port = some p.storageInstallation)
    (hs : Ready offers t s) :
    Alone (step (TypedStub.once (GetListService.new host port)
        (GetListService.invoke y.toYamlLibrary (World.network hosts y.toYamlLibrary) []))) n s
      fun result s' => Ready offers t s' ∧ ∃ names : List ImageName, names.Nodup ∧
        (∀ name, name ∈ names ↔ contents t name ≠ none) ∧
        result = .ok ((true, names.map ImageName.text), n) := by
  obtain ⟨hready, -, stored, hnodup, hmem, htold⟩ :=
    h.storage_call (y := y) hfits hkept hlistening .getList trivial hs
  have hsame : (StorageRequest.getList.answer p.storage t).2 = t := by
    obtain ⟨_, -, -, hanswer⟩ := answer_getList p.storage hkept.onlyImages
    rw [hanswer]
  rw [hsame] at hready
  have hlist : ∀ name ∈ stored, name ∈ names := by
    intro name hname
    obtain ⟨content, hcontent⟩ := Option.ne_none_iff_exists'.mp ((hmem name).mp hname)
    exact hfits.mem_names (hkept.origin name content hcontent)
  have hreturned : ((TypedStub.once (GetListService.new host port) (GetListService.invoke
      y.toYamlLibrary (World.network hosts y.toYamlLibrary) [])).run s).1 =
        .ok (true, stored.map ImageName.text) := htold (hfits.length_list hnodup hlist)
  refine alone_step ?_
  rw [hreturned]
  exact ⟨hready, stored, hnodup, hmem, rfl⟩

/-- A call of `GetImage` for an image that is stored. -/
theorem Works.alone_getImage (h : p.Works hosts offers) (hfits : p.Fits start clients names)
    (hkept : p.Kept start clients t)
    (hlistening : ∀ n, hosts.listening n host port = some p.storageInstallation)
    (hs : Ready offers t s) {name : ImageName} {content : List Byte}
    (hcontent : contents t name = some content) :
    Alone (step (TypedStub.once (GetImageService.new host port) (GetImageService.invoke
        y.toYamlLibrary (World.network hosts y.toYamlLibrary) name.text []))) n s
      fun result s' => Ready offers t s' ∧ result = .ok ((true, content), n) := by
  have hname := hfits.mem_names (hkept.origin name content hcontent)
  obtain ⟨hready, -, htold⟩ := h.storage_call (y := y) hfits hkept hlistening
    (.getImage name) (hfits.length_text hname) hs
  have hsame : ((StorageRequest.getImage name).answer p.storage t).2 = t := by
    obtain ⟨-, -, hsame⟩ | ⟨_, -, hanswer⟩ := answer_getImage p.storage name t
    · exact hsame
    · rw [hanswer]
  rw [hsame] at hready
  rw [hcontent] at htold
  have hreturned : ((TypedStub.once (GetImageService.new host port) (GetImageService.invoke
      y.toYamlLibrary (World.network hosts y.toYamlLibrary) name.text [])).run s).1 =
        .ok (true, content) := htold
  refine alone_step ?_
  rw [hreturned]
  exact ⟨hready, rfl⟩

/-- A call of `StoreImage`. -/
theorem Works.alone_storeImage (h : p.Works hosts offers) (hfits : p.Fits start clients names)
    (hkept : p.Kept start clients t)
    (hlistening : ∀ n, hosts.listening n host port = some p.storageInstallation)
    (hs : Ready offers t s) {name : ImageName} {content : List Byte}
    (hfrom : p.From start clients name content) :
    Alone (step (TypedStub.once (StoreImageService.new host port) (StoreImageService.invoke
        y.toYamlLibrary (World.network hosts y.toYamlLibrary) name.text content))) n s
      fun result s' =>
        Ready offers ((StorageRequest.storeImage name content).answer p.storage t).2 s' ∧
          ∃ told, result = .ok (told, n) := by
  obtain ⟨hready, htold⟩ := h.storage_call (y := y) hfits hkept hlistening
    (.storeImage name content)
    ⟨hfits.length_text (hfits.mem_names hfrom), hfits.small name content (.inr hfrom)⟩ hs
  refine alone_step ⟨hready, ?_⟩
  obtain ⟨htold, -⟩ | ⟨htold, -⟩ := htold
  · have hreturned : ((TypedStub.once (StoreImageService.new host port) (StoreImageService.invoke
        y.toYamlLibrary (World.network hosts y.toYamlLibrary) name.text content)).run s).1 =
          .ok true := htold
    rw [hreturned]
    exact ⟨true, rfl⟩
  · have hreturned : ((TypedStub.once (StoreImageService.new host port) (StoreImageService.invoke
        y.toYamlLibrary (World.network hosts y.toYamlLibrary) name.text content)).run s).1 =
          .ok false := htold
    rw [hreturned]
    exact ⟨false, rfl⟩

/-- What the image manipulation provider makes of a request, or that it cannot, or that it ends. -/
inductive Answers (p : Providers T) (request : ImageRequest) : Except Exn (Bool × List Byte) → Prop
  | made {output : List Byte} (hmakes : request.Makes p.images output) :
      Answers p request (.ok (true, output))
  | notMade {filename : Text} {e : Exn}
      (hload : p.images.loadJpeg filename request.input = .error e) :
      Answers p request (.ok (false, request.input))
  | ended {e : Exn} (hends : request.Ends p.images) : Answers p request (.error e)

/-- A request for the image manipulation provider. -/
theorem Works.images_call (h : p.Works hosts offers) (hfits : p.Fits start clients names)
    (hlistening : ∀ n, hosts.listening n host port = some p.imagesInstallation)
    (request : ImageRequest) {name : ImageName}
    (hretrieved : p.Retrieved start clients name request.input) (hs : Ready offers t s) :
    let called := request.call y.toYamlLibrary (World.network hosts y.toYamlLibrary) host port s
    Ready offers t called.2 ∧ p.Answers request called.1 := by
  intro called
  obtain ⟨w, k⟩ := s
  obtain ⟨folder, hfolder⟩ := h.folder
  obtain ⟨told, t', hcall, herror, hended, hok⟩ := request.call_of_whole y World.imagesPart
    (hfits.small name _ hretrieved) (images_target hlistening request k) (h.whole k) w
  rw [(h.attempts _).outcome_eq hfolder] at herror hended hok
  have hcalled : called = _ := hcall
  rw [hcalled]
  refine ⟨⟨hs.registry, hs.storage⟩, ?_⟩
  cases hload : p.images.loadJpeg (ImageHelper.tempfilename folder (p.attempts
      (World.imagesPart.part w).served)) request.input with
  | error e =>
    rw [herror e (by rw [hload]; rfl)]
    exact .notMade hload
  | ok image =>
    rw [hload] at hended hok
    cases hjpeg : ImageHelper.jpegOf p.images (request.manipulation p.images image) with
    | none =>
      obtain ⟨e, rfl⟩ := hended (congrArg Except.ok hjpeg)
      exact .ended ⟨_, image, hload, hjpeg⟩
    | some output =>
      have hmakes : request.Makes p.images output := ⟨_, image, hload, hjpeg⟩
      rw [hok output (congrArg Except.ok hjpeg)
        (hfits.small name output (.inr (hretrieved.makes hmakes)))]
      exact .made hmakes

theorem Works.alone_provider (h : p.Works hosts offers) (hr : r.Initialized) (service : Text)
    (hservice : service ∈ storageServices) (hs : Ready offers t s) :
    Alone (provider (environment y.toYamlLibrary (remoteLookup r y) hosts) (.ofText service)) n s
      fun result s' => ∃ host port, result = .ok ((host, port), n) ∧ Ready offers t s' ∧
        ∀ n, hosts.listening n host port = some p.storageInstallation := by
  have hvalid : ∀ service ∈ storageServices, (ServiceSignature.ofText service).isValid = true ∧
      (ServiceSignature.ofText service).signature = service := by decide +kernel
  obtain ⟨hvalid, hcanonical⟩ := hvalid service hservice
  exact (h.storage service hservice).alone_provider hr hvalid hcanonical hs

theorem Works.alone_imagesProvider (h : p.Works hosts offers) (hr : r.Initialized) (service : Text)
    (hservice : service ∈ imageManipulationServices) (hs : Ready offers t s) :
    Alone (provider (environment y.toYamlLibrary (remoteLookup r y) hosts) (.ofText service)) n s
      fun result s' => ∃ host port, result = .ok ((host, port), n) ∧ Ready offers t s' ∧
        ∀ n, hosts.listening n host port = some p.imagesInstallation := by
  have hvalid : ∀ service ∈ imageManipulationServices,
      (ServiceSignature.ofText service).isValid = true ∧
        (ServiceSignature.ofText service).signature = service := by decide +kernel
  obtain ⟨hvalid, hcanonical⟩ := hvalid service hservice
  exact (h.images service hservice).alone_provider hr hvalid hcanonical hs

/-- What the client takes for an image: the name as text. -/
def asText (x : Option (ImageName × List Byte) × ℕ) : Option (Text × List Byte) × ℕ :=
  (x.1.map fun image => (image.1.text, image.2), x.2)

/-- **An image is retrieved.** -/
theorem Works.alone_retrieve (h : p.Works hosts offers) (hr : r.Initialized)
    (hfits : p.Fits start clients names) (hkept : p.Kept start clients t) (i : ι)
    (hs : Ready offers t s) :
    Alone ((clients i).retrieve (environment y.toYamlLibrary (remoteLookup r y) hosts)) n s
      fun result s' => Ready offers t s' ∧
        ∃ picked, (clients i).Picks (contents t) n picked ∧ result = picked.map asText := by
  rw [retrieve]
  refine alone_random_bind _ ?_
  split
  · next hdisk =>
    rw [readRandomFileFromDisk]
    refine alone_lift_bind (fun e hfiles => ⟨hs, _, .noFolder hdisk hfiles, rfl⟩)
      fun files hfiles => ?_
    split
    · next hnil => exact alone_pure ⟨hs, _, .noFile hdisk (hnil ▸ hfiles), rfl⟩
    · refine alone_choose_bind _ ‹_› fun file hfile => ?_
      cases hcontent : file.content with
      | none =>
        have hread : (clients i).disk.read file = .error (clients i).disk.resize := by
          rw [Disk.read, hcontent]
        rw [hread]
        exact alone_lift_bind
          (fun e he => ⟨hs, _, .unreadable hdisk hfiles hfile hcontent, by cases he; rfl⟩)
          fun _ himage => by cases himage
      | some content =>
        have hread : (clients i).disk.read file = .ok (file.name.text, content) := by
          rw [Disk.read, hcontent, ← (hfits.plain i).filename_eq file]
        rw [hread]
        refine alone_lift_bind (fun _ he => by cases he) fun image himage => alone_pure ?_
        exact ⟨hs, _, .file hdisk hfiles hfile hcontent, by cases himage; rfl⟩
  · next hstorage =>
    rw [readRandomFileFromStorageProvider]
    refine (h.alone_provider hr (txt "GetList(out buffer)") (by decide) hs).bind
      (by rintro e s' ⟨_, _, ⟨⟩, -⟩) ?_
    rintro ⟨host, port⟩ _ s₁ ⟨_, _, ⟨⟩, hs₁, hlistening⟩
    refine (h.alone_getList hfits hkept hlistening hs₁).bind (by rintro e s' ⟨-, _, -, -, ⟨⟩⟩) ?_
    rintro ⟨listed, list⟩ _ s₂ ⟨hs₂, stored, hnodup, hmem, ⟨⟩⟩
    dsimp only
    rw [if_neg (by decide)]
    split
    · next hnil =>
      have hnone : ∀ name, contents t name = none := by
        rw [List.map_eq_nil_iff.mp hnil] at hmem
        exact fun name => not_not.mp (mt (hmem name).mpr List.not_mem_nil)
      exact alone_pure ⟨hs₂, _, .nothingStored hstorage hnone, rfl⟩
    · refine alone_choose_bind _ ‹_› fun text htext => ?_
      rw [List.length_map, List.getElem?_map] at htext
      obtain ⟨name, hname, rfl⟩ := Option.map_eq_some_iff.mp htext
      obtain ⟨content, hcontent⟩ :=
        Option.ne_none_iff_exists'.mp ((hmem name).mp (List.mem_of_getElem? hname))
      refine (h.alone_provider hr (txt "GetImage(in string, out buffer)") (by decide)
        hs₂).bind (by rintro e s' ⟨_, _, ⟨⟩, -⟩) ?_
      rintro ⟨host, port⟩ _ s₃ ⟨_, _, ⟨⟩, hs₃, hlistening⟩
      refine (h.alone_getImage hfits hkept hlistening hs₃ hcontent).bind
        (by rintro e s' ⟨-, ⟨⟩⟩) ?_
      rintro ⟨found, buffer⟩ _ s₄ ⟨hs₄, ⟨⟩⟩
      dsimp only
      rw [if_neg (by decide)]
      exact alone_pure ⟨hs₄, _, .stored hstorage hnodup hmem hname hcontent, rfl⟩

/-- **The image is turned or mirrored.** -/
theorem Works.alone_manipulate (h : p.Works hosts offers) (hr : r.Initialized)
    (hfits : p.Fits start clients names) (i : ι) {name : ImageName} {content : List Byte}
    (hretrieved : p.Retrieved start clients name content) (hs : Ready offers t s) :
    Alone ((clients i).manipulate (environment y.toYamlLibrary (remoteLookup r y) hosts) content)
      n s fun result s' => Ready offers t s' ∧
        ∃ told, p.Answers ((clients i).request n content).1 told ∧
          result = told.map fun told => (told, ((clients i).request n content).2) := by
  rw [manipulate]
  refine alone_random_bind _ ?_
  split
  · next hrotates =>
    refine (h.alone_imagesProvider hr (txt "RotateImage(in int, in buffer, out buffer)")
      (by decide) hs).bind (by rintro e s' ⟨_, _, ⟨⟩, -⟩) ?_
    rintro ⟨host, port⟩ _ s₁ ⟨_, _, ⟨⟩, hs₁, hlistening⟩
    refine alone_random_bind _ (alone_step ?_)
    obtain ⟨hready, hanswers⟩ := h.images_call (y := y) hfits hlistening
      (.rotateImage (BitVec.ofNat 32 ((clients i).rand (n + 1) % 360)) content) hretrieved hs₁
    rw [request, if_pos hrotates]
    exact ⟨hready, _, hanswers, rfl⟩
  · next hflips =>
    refine (h.alone_imagesProvider hr (txt "HorizontalFlipImage(in buffer, out buffer)")
      (by decide) hs).bind (by rintro e s' ⟨_, _, ⟨⟩, -⟩) ?_
    rintro ⟨host, port⟩ _ s₁ ⟨_, _, ⟨⟩, hs₁, hlistening⟩
    refine alone_step ?_
    obtain ⟨hready, hanswers⟩ := h.images_call (y := y) hfits hlistening
      (.horizontalFlipImage content) hretrieved hs₁
    rw [request, if_neg hflips]
    exact ⟨hready, _, hanswers, rfl⟩

/-- **The image is stored.** -/
theorem Works.alone_store (h : p.Works hosts offers) (hr : r.Initialized)
    (hfits : p.Fits start clients names) (hkept : p.Kept start clients t) (hs : Ready offers t s)
    {name : ImageName} {content : List Byte} (hfrom : p.From start clients name content) :
    Alone (store (environment y.toYamlLibrary (remoteLookup r y) hosts) name.text content) n s
      fun result s' => result = .ok ((), n) ∧ Ready offers
        ((StorageRequest.storeImage name content).answer p.storage t).2 s' := by
  rw [store]
  refine (h.alone_provider hr (txt "StoreImage(in string, in buffer)") (by decide)
    hs).bind (by rintro e s' ⟨_, _, ⟨⟩, -⟩) ?_
  rintro ⟨host, port⟩ _ s₁ ⟨_, _, ⟨⟩, hs₁, hlistening⟩
  refine (h.alone_storeImage hfits hkept hlistening hs₁ hfrom).bind
    (by rintro e s' ⟨-, _, ⟨⟩⟩) ?_
  rintro told _ s₂ ⟨hs₂, _, ⟨⟩⟩
  exact alone_pure ⟨rfl, hs₂⟩

/-- **The body of the loop is a round.** -/
theorem Works.round_of_iteration (h : p.Works hosts offers) (hr : r.Initialized)
    (hfits : p.Fits start clients names) (hkept : p.Kept start clients t) (i : ι)
    (hs : Ready offers t s) :
    Alone ((clients i).iteration (environment y.toYamlLibrary (remoteLookup r y) hosts)) n s
      fun result s' => ∃ t', Ready offers t' s' ∧ p.Kept start clients t' ∧
        Round p.images (clients i) t n result t' := by
  rw [Client.iteration]
  refine (h.alone_retrieve hr hfits hkept i hs).bind ?_ ?_
  · rintro e s' ⟨hs', picked, hpicks, heq⟩
    obtain e | picked := picked
    · obtain rfl := Except.error.inj heq
      exact ⟨t, hs', hkept, .stopped hpicks⟩
    · cases heq
  rintro image n₁ s₁ ⟨hs₁, picked, hpicks, heq⟩
  obtain e | ⟨_ | ⟨name, content⟩, n'⟩ := picked
  · cases heq
  · cases heq
    exact alone_pure ⟨t, hs₁, hkept, .noImage hpicks⟩
  cases heq
  dsimp only [asText, Option.map_some]
  -- where the image comes from
  have hretrieved : p.Retrieved start clients name content := by
    cases hpicks with
    | @file files file content hdisk hfiles hfile hcontent =>
      obtain ⟨found, hfound, rfl⟩ := Throwing.exists_of_map_ok hfiles
      have hmem := (List.mem_filter.mp (List.mem_of_getElem? hfile)).1
      rw [show file = ⟨file.name, some content⟩ from hcontent ▸ rfl] at hmem
      exact .inl ⟨i, found, hfound, hmem⟩
    | stored hstorage hnodup hnames hname hcontent => exact .inr (hkept.origin _ _ hcontent)
  have hinput : ((clients i).request n' content).1.input = content := by
    rw [request]
    split <;> rfl
  refine (h.alone_manipulate hr hfits i hretrieved hs₁).bind ?_ ?_
  · rintro e s' ⟨hs', told, hanswers, heq⟩
    cases hanswers with
    | made hmakes => cases heq
    | notMade hload => cases heq
    | ended hends => exact ⟨t, hs', hkept, .ended hpicks hends⟩
  rintro changed n₂ s₂ ⟨hs₂, told, hanswers, heq⟩
  cases hanswers with
  | ended hends => cases heq
  | @made output hmakes =>
    cases heq
    dsimp only
    rw [if_neg (by decide)]
    have hfrom : p.From start clients name output :=
      Retrieved.makes (by rwa [hinput]) hmakes
    refine (h.alone_store hr hfits hkept hs₂ hfrom).mono ?_
    rintro _ s₃ ⟨rfl, hs₃⟩
    have honly := onlyImages_answer p.storage hkept.onlyImages (.storeImage name output)
    have hallowed := allowed_answer p.storage hkept.onlyImages (.storeImage name output)
    obtain ⟨hfalse, hstorable, -⟩ | ⟨htrue, hstorable, -⟩ :=
      answer_storeImage p.storage name output t
    · rw [Allowed, hfalse, if_neg Bool.false_ne_true] at hallowed
      exact ⟨_, hs₃, ⟨honly, fun name' content' h => hkept.origin _ _ (hallowed ▸ h)⟩,
        .refused hpicks hmakes hstorable hallowed⟩
    · rw [Allowed, htrue, if_pos rfl] at hallowed
      refine ⟨_, hs₃, ⟨honly, fun name' content' h => ?_⟩, .stored hpicks hmakes hstorable hallowed⟩
      rw [hallowed, Function.update_apply] at h
      split at h
      · next hname =>
        rw [hname, ← Option.some.inj h]
        exact hfrom
      · exact hkept.origin _ _ h
  | notMade hload =>
    cases heq
    dsimp only
    rw [if_pos rfl]
    exact alone_pure ⟨t, hs₂, hkept, .notMade hpicks (hinput ▸ hload)⟩

/-- One round after another. -/
theorem Works.alone_main (h : p.Works hosts offers) (hr : r.Initialized)
    (hfits : p.Fits start clients names) (i : ι) (times : ℕ) (hkept : p.Kept start clients t)
    (hs : Ready offers t s) :
    Alone ((clients i).main (environment y.toYamlLibrary (remoteLookup r y) hosts) times) n s
      fun result s' => Rounds p.images (clients i) times t n result s'.1.storage := by
  induction times generalizing t n s with
  | zero => exact alone_pure (hs.storage ▸ .done)
  | succ times ih =>
    refine (h.round_of_iteration hr hfits hkept i hs).bind ?_ ?_
    · rintro e s' ⟨t', hs', -, hround⟩
      exact hs'.storage ▸ .stopped hround
    · rintro _ n' s' ⟨t', hs', hkept', hround⟩
      exact (ih hkept' hs').mono fun _ _ hrest => .next hround hrest

end Works

/-- **The loop is one round after another**, if nothing goes wrong: a client that runs alone takes
an image from its disk or from the storage, as its random numbers say, has it turned or mirrored as
they say, and stores the result under the name of the image; where the image cannot be loaded, or
nothing be stored under the name, it goes on. It ends only if its own folder or file cannot be read,
or if libjpeg refuses to save the image and so ends the image manipulation provider. -/
theorem rounds_of_main {p : Providers T} {hosts : Hosts (World SoundRegistry)}
    {offers : Set (ServiceSignature × Provider)} (h : p.Works hosts offers) {r : Registry}
    (hr : r.Initialized) (y : YamlCpp) {start : FileSystem} (hstart : OnlyImages start)
    {clients : ι → Client} {names : Finset ImageName} (hfits : p.Fits start clients names) (i : ι)
    (times n : ℕ) {s : World SoundRegistry × ℕ} (hs : Ready offers start s) :
    let returned := (Routine.toThrowing (((clients i).main
      (environment y.toYamlLibrary (remoteLookup r y) hosts) times).run n)).run s
    Rounds p.images (clients i) times start n returned.1 returned.2.1.storage :=
  h.alone_main hr hfits i times ⟨hstart, fun _ _ hcontent => .initial hcontent⟩ hs

/-! ### Providers that have been started -/

/-- Both providers have registered their services, and listen. -/
theorem announced_of_offers {p : Providers T} {hosts : Hosts (World SoundRegistry)} {a b : Provider}
    (ha : ∀ n, hosts.listening n a.1 a.2 = some p.storageInstallation)
    (hb : ∀ n, hosts.listening n b.1 b.2 = some p.imagesInstallation) :
    let offers := ProviderMain.offersOf storageServices a ∪
      ProviderMain.offersOf imageManipulationServices b
    (∀ service ∈ storageServices, Announced hosts offers service p.storageInstallation) ∧
      ∀ service ∈ imageManipulationServices,
        Announced hosts offers service p.imagesInstallation := by
  intro offers
  have hnames : ∀ service ∈ storageServices, ∀ other ∈ imageManipulationServices,
      (ServiceSignature.ofText service).name ≠ (ServiceSignature.ofText other).name := by
    decide +kernel
  refine ⟨fun service hservice => ⟨⟨_, .inl ⟨service, hservice, rfl⟩, rfl⟩, ?_⟩,
    fun service hservice => ⟨⟨_, .inr ⟨service, hservice, rfl⟩, rfl⟩, ?_⟩⟩
  · rintro _ (⟨other, -, rfl⟩ | ⟨other, hother, rfl⟩) hname n
    · exact ha n
    · exact absurd hname.symm (hnames service hservice other hother)
  · rintro _ (⟨other, hother, rfl⟩ | ⟨other, -, rfl⟩) hname n
    · exact absurd hname (hnames other hother service hservice)
    · exact hb n

/-- A provider registers its services with a registry that has none of their names. -/
theorem exists_registered {services : List Text} (hservices : ProviderMain.WellNamed services)
    (registry : SoundRegistry)
    (hfree : ∀ service ∈ services, ∀ o ∈ registry.table.offers,
      o.1.name ≠ (ServiceSignature.ofText service).name) (address port : Text) :
    ∃ registry' : SoundRegistry, registry'.table.offers =
      registry.table.offers ∪ ProviderMain.offersOf services (address, port) := by
  have hnot : ∀ service ∈ services, ¬ ProviderMain.Taken registry.table.offers service :=
    fun service hservice ⟨o, ho, hname, _⟩ => hfree service hservice o ho hname
  obtain ⟨-, t, -, hoffers⟩ | ⟨_, service, _, rfl, -, htaken, -⟩ :=
    ProviderMain.registerAll_cases storageYaml ProviderMain.anyCreate address port
      Registry.sampleAddress_initialized hservices
      ⟨{ hierarchyName := txt "ServiceSkeleton" }, registry⟩ fun _ _ => rfl
  · exact ⟨t.registry, hoffers⟩
  · exact absurd htaken (hnot service (by simp))

/-- The hosts of the sample, over connections that are whole. -/
def wholeHosts : Hosts (World SoundRegistry) := { sampleHosts with link := fun _ => .plain }

/-- Both providers register with an empty registry, and a client goes three rounds. -/
theorem rounds_of_main_sample : ∃ registry : SoundRegistry,
    let returned := (Routine.toThrowing (((sampleClients true).main (environment
      storageYaml.toYamlLibrary (remoteLookup Registry.sampleAddress storageYaml) wholeHosts)
        3).run 0)).run (⟨registry, .empty, {}⟩, 0)
    Rounds sampleProviders.images (sampleClients true) 3 .empty 0 returned.1
      returned.2.1.storage := by
  have hempty : ({} : RegistryImpl).offers = ∅ := by
    ext o
    simp [RegistryImpl.offers]
  obtain ⟨registry₁, hregistry₁⟩ := exists_registered ProviderMain.wellNamed_storageServices
    ⟨{}, RegistryImpl.wellFormed_empty⟩ (fun _ _ o ho => by rw [hempty] at ho; cases ho)
    (txt "10.0.0.2") (txt "5000")
  rw [hempty, Set.empty_union] at hregistry₁
  have hnames : ∀ service ∈ imageManipulationServices, ∀ other ∈ storageServices,
      (ServiceSignature.ofText other).name ≠ (ServiceSignature.ofText service).name := by
    decide +kernel
  obtain ⟨registry, hregistry⟩ := exists_registered
    ProviderMain.wellNamed_imageManipulationServices registry₁ (fun service hservice o ho => by
      rw [hregistry₁] at ho
      obtain ⟨other, hother, rfl⟩ := ho
      exact hnames service hservice other hother) (txt "10.0.0.3") (txt "5000")
  rw [hregistry₁] at hregistry
  have hlistening : ∀ n, wholeHosts.listening n (txt "10.0.0.2") (txt "5000") =
      some sampleProviders.storageInstallation := fun _ => rfl
  have himagesListening : ∀ n, wholeHosts.listening n (txt "10.0.0.3") (txt "5000") =
      some sampleProviders.imagesInstallation := fun _ => rfl
  obtain ⟨hstorage, himages⟩ := announced_of_offers (a := (txt "10.0.0.2", txt "5000"))
    (b := (txt "10.0.0.3", txt "5000")) hlistening himagesListening
  exact ⟨registry, rounds_of_main
    ⟨hstorage, himages, fun _ => ⟨rfl, fun _ => rfl, rfl, rfl⟩, ⟨_, rfl⟩,
      fun _ => ⟨rfl, rfl, rfl, rfl⟩⟩
    Registry.sampleAddress_initialized storageYaml (fun _ _ h => by cases h) sample_fits true 3 0
    ⟨hregistry, rfl⟩⟩

end Providers

end Ssoa
