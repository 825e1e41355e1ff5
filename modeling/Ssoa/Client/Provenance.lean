import Ssoa.Client.Main
import Ssoa.Registry.Remote
import Ssoa.Storage.Remote
import Mathlib.Algebra.BigOperators.Group.Finset.Basic
import Mathlib.Algebra.Order.BigOperators.Group.Finset

/-!
# Where the images come from

Clients, the registry and both providers are one system. Whatever the registry answers, whatever
happens to the connections, and however the steps of the clients alternate, an image that is stored
has been there from the beginning, or is what the image manipulation provider has made of an image
with the same name, which was on the disk of a client or was itself stored. No image is stored under
the name of another, cut off, or mixed up with another client's.

The image manipulation provider may fail, and even end and be started again. What is not in this
model is that the storage provider cannot read or write a file it has opened.

## Main results

* `Providers.ensures_iteration` — what one round of a client ensures
* `Providers.provenance` — any number of clients
-/

namespace Ssoa

/-- What the registry and the providers keep. -/
structure World (ρ : Type) where
  registry : ρ
  storage : FileSystem
  images : ImageKept

namespace World

variable {ρ : Type}

def registryPart : Throwing.Part (World ρ × ℕ) ρ Unit where
  part s := s.1.registry
  put s registry := ({ s.1 with registry }, s.2)
  rest _ := ()
  put_part _ := rfl
  part_put _ _ := rfl
  put_put _ _ _ := rfl
  rest_put _ _ := rfl

def storagePart : Throwing.Part (World ρ) FileSystem Unit where
  part w := w.storage
  put w storage := { w with storage }
  rest _ := ()
  put_part _ := rfl
  part_put _ _ := rfl
  put_put _ _ _ := rfl
  rest_put _ _ := rfl

def imagesPart : Throwing.Part (World ρ) ImageKept Unit where
  part w := w.images
  put w images := { w with images }
  rest _ := ()
  put_part _ := rfl
  part_put _ _ := rfl
  put_put _ _ _ := rfl
  rest_put _ _ := rfl

/-- How often the image manipulation provider has ended. -/
def ended (w : World ρ) : ℕ := w.images.ended

/-- The network between the clients and the providers. -/
abbrev network (hosts : Hosts (World ρ)) (y : YamlLibrary) : Network (World ρ × ℕ) :=
  hosts.mortal ended y

end World

variable {T : Type} [Inhabited T]

/-- Where a stored image comes from. -/
inductive Origin (sys : ImageSystem T) (initial onDisk : ImageName → List Byte → Prop) :
    ImageName → List Byte → Prop
  | initial {name : ImageName} {content : List Byte} (h : initial name content) :
      Origin sys initial onDisk name content
  | ofDisk {name : ImageName} {output : List Byte} (request : ImageRequest)
      (h : onDisk name request.input) (hmakes : request.Makes sys output) :
      Origin sys initial onDisk name output
  | ofStored {name : ImageName} {output : List Byte} (request : ImageRequest)
      (h : Origin sys initial onDisk name request.input) (hmakes : request.Makes sys output) :
      Origin sys initial onDisk name output

/-- The providers: their systems, and what the system decides for each request for an image. -/
structure Providers (T : Type) where
  storage : System
  images : ImageSystem T
  attempts : ℕ → Attempt

namespace Providers

open StorageProvider StorageRequest StorageService Client

variable {ρ ι : Type} (p : Providers T)

def storageInstallation : Installation (World ρ) :=
  (StorageProvider.installation p.storage).onPart World.storagePart

def imagesInstallation : Installation (World ρ) :=
  (ImageProvider.installation p.images p.attempts).onPart World.imagesPart

/-- Nobody else listens. -/
def Only (hosts : Hosts (World ρ)) : Prop :=
  ∀ n host port q, hosts.listening n host port = some q →
    q = p.storageInstallation ∨ q = p.imagesInstallation

/-- What the clients work with. -/
def environment (y : YamlLibrary) (lookup : Text → Throwing ρ Exn (Text × Text))
    (hosts : Hosts (World ρ)) : Environment (World ρ × ℕ) where
  getProvider service := Throwing.within World.registryPart fun _ => lookup service
  yaml := y
  network := World.network hosts y

/-- What is on the disks of the clients. -/
def OnDisk (clients : ι → Client) (name : ImageName) (content : List Byte) : Prop :=
  ∃ i found, (clients i).disk.found = .ok found ∧ ⟨name, some content⟩ ∈ found

/-- Where an image comes from, when the clients begin with this storage. -/
abbrev From (start : FileSystem) (clients : ι → Client) : ImageName → List Byte → Prop :=
  Origin p.images (fun name content => contents start name = some content) (OnDisk clients)

/-- An image that a client may begin with: on a disk, or stored. -/
def Retrieved (start : FileSystem) (clients : ι → Client) (name : ImageName)
    (content : List Byte) : Prop :=
  OnDisk clients name content ∨ p.From start clients name content

/-- There are not so many names that a list of them has 2 GiB, no image has 2 GiB, be it there at
first or made on the way, and the folders of the clients have no dots in their paths. -/
structure Fits (start : FileSystem) (clients : ι → Client) (names : Finset ImageName) : Prop where
  plain : ∀ i, (clients i).disk.Plain
  initial : ∀ name content, contents start name = some content → name ∈ names
  onDisk : ∀ name content, OnDisk clients name content → name ∈ names
  small : ∀ name content, p.Retrieved start clients name content → content.length < 2 ^ 31
  list : ∑ name ∈ names, (wire name.text).length < 2 ^ 31

/-- All that is stored are images that come from where they should. -/
structure Kept (start : FileSystem) (clients : ι → Client) (t : FileSystem) : Prop where
  onlyImages : OnlyImages t
  origin : ∀ name content, contents t name = some content → p.From start clients name content

/-- What holds in between the steps of the clients. -/
abbrev Holds (start : FileSystem) (clients : ι → Client) (s : World ρ × ℕ) : Prop :=
  p.Kept start clients s.1.storage

section Requests

variable {p} {start : FileSystem} {clients : ι → Client} {names : Finset ImageName}
  {y : YamlCpp} {hosts : Hosts (World ρ)}

theorem Fits.mem_names (h : p.Fits start clients names) {name : ImageName} {content : List Byte}
    (horigin : p.From start clients name content) : name ∈ names := by
  induction horigin with
  | initial hinitial => exact h.initial _ _ hinitial
  | ofDisk request hdisk _ => exact h.onDisk _ _ hdisk
  | ofStored request _ _ ih => exact ih

/-- What is made of an image that a client may begin with. -/
theorem Retrieved.makes {name : ImageName} {request : ImageRequest} {output : List Byte}
    (h : p.Retrieved start clients name request.input) (hmakes : request.Makes p.images output) :
    p.From start clients name output := by
  rcases h with hdisk | hfrom
  · exact .ofDisk request hdisk hmakes
  · exact .ofStored request hfrom hmakes

theorem Fits.length_text (h : p.Fits start clients names) {name : ImageName}
    (hname : name ∈ names) : name.text.length < 2 ^ 31 :=
  calc name.text.length ≤ (wire name.text).length := List.length_append ▸ Nat.le_add_right ..
    _ ≤ ∑ name ∈ names, (wire name.text).length :=
        Finset.single_le_sum (f := fun name : ImageName => (wire name.text).length)
          (fun _ _ => Nat.zero_le _) hname
    _ < 2 ^ 31 := h.list

/-- A list of names of images that are stored has less than 2 GiB. -/
theorem Fits.length_list (h : p.Fits start clients names) {list : List ImageName}
    (hnodup : list.Nodup) (hlist : ∀ name ∈ list, name ∈ names) :
    ((list.map ImageName.text).flatMap wire).length < 2 ^ 31 := by
  have hsum : ((list.map ImageName.text).flatMap wire).length =
      ∑ name ∈ list.toFinset, (wire name.text).length := by
    rw [List.length_flatMap, List.map_map, List.sum_toFinset _ hnodup]
    rfl
  rw [hsum]
  refine Nat.lt_of_le_of_lt ?_ h.list
  exact Finset.sum_le_sum_of_subset fun name hname => hlist name (List.mem_toFinset.mp hname)

/-- Everything stored is small. -/
theorem Kept.smallContents (h : p.Fits start clients names) {t : FileSystem}
    (ht : p.Kept start clients t) : SmallContents t := fun name content hcontent =>
  h.small name content (.inr (ht.origin name content hcontent))

/-- Whom a request for the storage provider can reach. -/
theorem Only.storage_target (honly : p.Only hosts) (request : StorageRequest) (host port : Text)
    (n : ℕ) (k : ServiceClass (World ρ)) (hk : hosts.target n (request.stub host port) = some k) :
    k = (request.serviceClass p.storage).onPart World.storagePart := by
  obtain ⟨q, hq, hk⟩ := Option.bind_eq_some_iff.mp hk
  obtain rfl | rfl := honly n _ _ q hq
  · rw [storageInstallation, Installation.classOf_onPart] at hk
    obtain ⟨k', hk', rfl⟩ := Option.map_eq_some_iff.mp hk
    rw [Option.some.inj (hk'.symm.trans (request.classOf_installation p.storage))]
  · have hother : request.service.signature.signature ∉
        (p.imagesInstallation : Installation (World ρ)).classes.map ServiceClass.text := by
      show _ ∉ [txt "RotateImage(in int, in buffer, out buffer)",
        txt "HorizontalFlipImage(in buffer, out buffer)"]
      cases request with
      | storeImage name content =>
        show StoreImageServiceImpl.serviceSignature.signature ∉ _
        decide +kernel
      | getImage name =>
        show GetImageServiceImpl.serviceSignature.signature ∉ _
        decide +kernel
      | getList =>
        show GetListServiceImpl.serviceSignature.signature ∉ _
        decide +kernel
    cases (Installation.classOf_eq_none _ hother).symm.trans hk

/-- Whom a request for the image manipulation provider can reach. -/
theorem Only.images_target (honly : p.Only hosts) (request : ImageRequest) (host port : Text)
    (n : ℕ) (k : ServiceClass (World ρ)) (hk : hosts.target n (request.stub host port) = some k) :
    k = (request.serviceClass p.images p.attempts).onPart World.imagesPart := by
  obtain ⟨q, hq, hk⟩ := Option.bind_eq_some_iff.mp hk
  obtain rfl | rfl := honly n _ _ q hq
  · have hother : request.service.signature.signature ∉
        (p.storageInstallation : Installation (World ρ)).classes.map ServiceClass.text := by
      show _ ∉ [txt "StoreImage(in string, in buffer)", txt "GetImage(in string, out buffer)",
        txt "GetList(out buffer)"]
      cases request with
      | rotateImage degrees input =>
        show RotateImageServiceImpl.serviceSignature.signature ∉ _
        decide +kernel
      | horizontalFlipImage input =>
        show HorizontalFlipImageServiceImpl.serviceSignature.signature ∉ _
        decide +kernel
    cases (Installation.classOf_eq_none _ hother).symm.trans hk
  · rw [imagesInstallation, Installation.classOf_onPart] at hk
    obtain ⟨k', hk', rfl⟩ := Option.map_eq_some_iff.mp hk
    rw [Option.some.inj (hk'.symm.trans (request.classOf_installation p.images p.attempts))]

omit [Inhabited T] in
/-- A request for the storage provider does not end the other one. -/
theorem storage_call_mortal {request : StorageRequest} (hsmall : request.IsSmall)
    {host port : Text} (htarget : ∀ n k, hosts.target n (request.stub host port) = some k →
      k = (request.serviceClass p.storage).onPart World.storagePart) (output : StorageOutput)
    (s : World ρ × ℕ) :
    request.call y.toYamlLibrary (World.network hosts y.toYamlLibrary) host port output s =
      request.call y.toYamlLibrary (hosts.network y.toYamlLibrary) host port output s := by
  obtain ⟨w, n⟩ := s
  obtain ⟨n', t', heq, -⟩ := call_cases y World.storagePart ⟨request, hsmall⟩ htarget output w n
  obtain ⟨received, hmortal, hsame, -⟩ := Hosts.exists_run_submit_mortal y.toYamlLibrary hosts
    World.ended (request.stub host port) (w, n)
  rcases hsubmit : ((request.stub host port).submit y.toYamlLibrary
    (hosts.network y.toYamlLibrary)).run (w, n) with ⟨received', w'⟩
  rw [hsubmit] at hmortal hsame
  have hcall := request.call_eq output hsubmit
  have hended : World.ended w'.1 = World.ended w := by
    obtain rfl : w' = (World.storagePart.put w t', n') := by
      rw [← heq]
      exact (congrArg Prod.snd hcall).symm
    rfl
  rw [hsame hended] at hmortal
  rw [request.call_eq output hmortal, hcall]

/-- **A request for the storage provider.** An image to be stored must come from where it should. -/
theorem Kept.storage_call (h : p.Fits start clients names) (honly : p.Only hosts)
    (request : StorageRequest) (hsmall : request.IsSmall)
    (hstore : ∀ name content, request = .storeImage name content →
      p.From start clients name content) (host port : Text) {s : World ρ × ℕ}
    (hs : p.Holds start clients s) :
    let called := request.call y.toYamlLibrary (World.network hosts y.toYamlLibrary) host port {} s
    p.Holds start clients called.2 ∧ AllowedRemotely (contents s.1.storage) request {} called.1
      (contents called.2.1.storage) := by
  rw [storage_call_mortal hsmall (honly.storage_target request host port)]
  intro called
  obtain ⟨w, n⟩ := s
  obtain ⟨n', t', heq, ht', hallowed⟩ := call_cases y World.storagePart ⟨request, hsmall⟩
    (honly.storage_target request host port) {} w n
  have hallowed := hallowed hs.onlyImages (hs.smallContents h)
  have hstorage : called.2.1.storage = t' := congrArg (fun s => s.1.storage) heq
  rw [hstorage]
  refine ⟨⟨?_, ?_⟩, hallowed⟩
  · rw [hstorage]
    obtain rfl | rfl := ht'
    · exact hs.onlyImages
    · exact onlyImages_answer p.storage hs.onlyImages request
  · rw [hstorage]
    intro name content hcontent
    cases request with
    | storeImage name' content' =>
      obtain ⟨hsame | hupdated, -⟩ := hallowed
      · exact hs.origin name content (hsame ▸ hcontent)
      · rw [hupdated, Function.update_apply] at hcontent
        split at hcontent
        · next hname =>
          rw [hname, ← Option.some.inj hcontent]
          exact hstore name' content' rfl
        · exact hs.origin name content hcontent
    | getImage name' => exact hs.origin name content (hallowed.1 ▸ hcontent)
    | getList => exact hs.origin name content (hallowed.1 ▸ hcontent)

/-- **A request for the image manipulation provider.** -/
theorem Kept.images_call (h : p.Fits start clients names) (honly : p.Only hosts)
    (request : ImageRequest) {name : ImageName}
    (hretrieved : p.Retrieved start clients name request.input) (host port : Text)
    {s : World ρ × ℕ} (hs : p.Holds start clients s) :
    let called := request.call y.toYamlLibrary (World.network hosts y.toYamlLibrary) host port s
    p.Holds start clients called.2 ∧
      ∀ output, called.1 = .ok (true, output) → p.From start clients name output := by
  intro called
  obtain ⟨w, n⟩ := s
  obtain ⟨n', t', heq, htold⟩ := request.call_cases y World.imagesPart World.ended
    (h.small name _ hretrieved) (honly.images_target request host port) w n
  have hstorage : called.2.1.storage = w.storage := congrArg (fun s => s.1.storage) heq
  refine ⟨⟨hstorage ▸ hs.onlyImages, hstorage ▸ hs.origin⟩, fun output houtput => ?_⟩
  obtain ⟨made, hmakes, hmade⟩ := htold output houtput
  have hfrom := hretrieved.makes hmakes
  rw [hmade (h.small name made (.inr hfrom))]
  exact hfrom

end Requests

/-! ### The clients -/

section Clients

variable {p} {start : FileSystem} {clients : ι → Client} {names : Finset ImageName}
  {y : YamlCpp} {hosts : Hosts (World ρ)} {lookup : Text → Throwing ρ Exn (Text × Text)}

theorem ensures_provider (service : ServiceSignature) :
    Ensures (p.Holds start clients) (fun _ => True)
      (provider (environment y.toYamlLibrary lookup hosts) service) :=
  ensures_step fun _ hs => ⟨⟨hs.onlyImages, hs.origin⟩, fun _ _ => trivial⟩

theorem ensures_disk (h : p.Fits start clients names) (i : ι) :
    Ensures (p.Holds start clients)
      (fun image : Option (Text × List Byte) => ∀ x, image = some x →
        ∃ name, x.1 = name.text ∧ OnDisk clients name x.2)
      ((clients i).readRandomFileFromDisk : Steps (World ρ × ℕ) _) := by
  rw [readRandomFileFromDisk]
  refine Ensures.bind (Q := fun files => (clients i).disk.files = .ok files)
    (ensures_lift fun _ hfiles => hfiles) fun files hfiles => ?_
  split
  · exact ensures_pure nofun
  refine (ensures_choose _ files ‹_›).bind fun file hfile => ?_
  refine Ensures.bind (Q := fun image => (clients i).disk.read file = .ok image)
    (ensures_lift fun _ hread => hread) fun image hread => ensures_pure ?_
  rintro _ ⟨⟩
  obtain ⟨found, hfound, rfl⟩ := Throwing.exists_of_map_ok hfiles
  obtain ⟨name, content | content⟩ := file
  · cases hread
  · rw [← Except.ok.inj hread]
    exact ⟨name, (h.plain i).filename_eq _, i, found, hfound, (List.mem_filter.mp hfile).1⟩

theorem ensures_getList (h : p.Fits start clients names) (honly : p.Only hosts) (host port : Text) :
    Ensures (p.Holds start clients)
      (fun told => told.1 = true → ∀ text ∈ told.2, ∃ name ∈ names, text = name.text)
      (step (TypedStub.once (GetListService.new host port)
        (GetListService.invoke y.toYamlLibrary (World.network hosts y.toYamlLibrary) []))) := by
  refine ensures_step fun s hs => ?_
  obtain ⟨hkept, hallowed⟩ := hs.storage_call (y := y) h honly .getList trivial nofun host port
  refine ⟨hkept, ?_⟩
  rintro ⟨told, list⟩ hreturned rfl text htext
  obtain ⟨-, hlist⟩ := hallowed
  obtain ⟨stored, hnodup, hmem, hexact⟩ := hlist list hreturned
  have hstored : ∀ name ∈ stored, name ∈ names := by
    intro name hname
    obtain ⟨content, hcontent⟩ := Option.ne_none_iff_exists'.mp ((hmem name).mp hname)
    exact h.mem_names (hs.origin name content hcontent)
  rw [hexact (h.length_list hnodup hstored)] at htext
  obtain ⟨name, hname, rfl⟩ := List.mem_map.mp htext
  exact ⟨name, hstored name hname, rfl⟩

theorem ensures_getImage (h : p.Fits start clients names) (honly : p.Only hosts)
    {name : ImageName} (hname : name ∈ names) (host port : Text) :
    Ensures (p.Holds start clients)
      (fun told => told.1 = true → p.From start clients name told.2)
      (step (TypedStub.once (GetImageService.new host port) (GetImageService.invoke
        y.toYamlLibrary (World.network hosts y.toYamlLibrary) name.text []))) := by
  refine ensures_step fun s hs => ?_
  obtain ⟨hkept, hallowed⟩ := hs.storage_call (y := y) h honly (.getImage name)
    (h.length_text hname) nofun host port
  refine ⟨hkept, ?_⟩
  rintro ⟨told, content⟩ hreturned rfl
  exact hs.origin name content (hallowed.2 content hreturned)

theorem ensures_storageProvider (h : p.Fits start clients names) (honly : p.Only hosts) (i : ι) :
    Ensures (p.Holds start clients)
      (fun image : Option (Text × List Byte) => ∀ x, image = some x →
        ∃ name, x.1 = name.text ∧ p.From start clients name x.2)
      ((clients i).readRandomFileFromStorageProvider
        (environment y.toYamlLibrary lookup hosts)) := by
  rw [readRandomFileFromStorageProvider]
  refine (ensures_provider _).bind fun ⟨host, port⟩ _ => ?_
  refine (ensures_getList h honly host port).bind fun ⟨listed, list⟩ hlist => ?_
  dsimp only
  split
  · exact ensures_pure nofun
  split
  · exact ensures_pure nofun
  refine (ensures_choose _ list ‹_›).bind fun text htext => ?_
  obtain ⟨name, hname, rfl⟩ := hlist (by simpa using ‹¬ listed = false›) text htext
  refine (ensures_provider _).bind fun ⟨host, port⟩ _ => ?_
  refine (ensures_getImage h honly hname host port).bind fun ⟨found, content⟩ hcontent => ?_
  dsimp only
  split
  · exact ensures_pure nofun
  · refine ensures_pure ?_
    rintro _ ⟨⟩
    exact ⟨name, rfl, hcontent (by simpa using ‹¬ found = false›)⟩

theorem ensures_retrieve (h : p.Fits start clients names) (honly : p.Only hosts) (i : ι) :
    Ensures (p.Holds start clients)
      (fun image : Option (Text × List Byte) => ∀ x, image = some x →
        ∃ name, x.1 = name.text ∧ p.Retrieved start clients name x.2)
      ((clients i).retrieve (environment y.toYamlLibrary lookup hosts)) := by
  rw [retrieve]
  refine (ensures_random _).bind fun r _ => ?_
  split
  · refine (ensures_disk h i).mono fun image himage x hx => ?_
    obtain ⟨name, htext, hdisk⟩ := himage x hx
    exact ⟨name, htext, .inl hdisk⟩
  · refine (ensures_storageProvider h honly i).mono fun image himage x hx => ?_
    obtain ⟨name, htext, hfrom⟩ := himage x hx
    exact ⟨name, htext, .inr hfrom⟩

theorem ensures_manipulate (h : p.Fits start clients names) (honly : p.Only hosts) (i : ι)
    {name : ImageName} {buffer : List Byte}
    (hretrieved : p.Retrieved start clients name buffer) :
    Ensures (p.Holds start clients)
      (fun told => told.1 = true → p.From start clients name told.2)
      ((clients i).manipulate (environment y.toYamlLibrary lookup hosts) buffer) := by
  rw [manipulate]
  refine (ensures_random _).bind fun r _ => ?_
  split
  · refine (ensures_provider _).bind fun ⟨host, port⟩ _ => ?_
    refine (ensures_random _).bind fun degrees _ => ensures_step fun s hs => ?_
    obtain ⟨hkept, htold⟩ := hs.images_call (y := y) h honly
      (.rotateImage (BitVec.ofNat 32 (degrees % 360)) buffer) hretrieved host port
    refine ⟨hkept, ?_⟩
    rintro ⟨told, output⟩ hreturned rfl
    exact htold output hreturned
  · refine (ensures_provider _).bind fun ⟨host, port⟩ _ => ensures_step fun s hs => ?_
    obtain ⟨hkept, htold⟩ := hs.images_call (y := y) h honly (.horizontalFlipImage buffer)
      hretrieved host port
    refine ⟨hkept, ?_⟩
    rintro ⟨told, output⟩ hreturned rfl
    exact htold output hreturned

theorem ensures_store (h : p.Fits start clients names) (honly : p.Only hosts) {name : ImageName}
    {content : List Byte} (hfrom : p.From start clients name content) :
    Ensures (p.Holds start clients) (fun _ => True)
      (store (environment y.toYamlLibrary lookup hosts) name.text content) := by
  rw [store]
  refine (ensures_provider _).bind fun ⟨host, port⟩ _ => ?_
  refine Ensures.bind (Q := fun _ => True) (ensures_step fun s hs => ?_) fun _ _ =>
    ensures_pure trivial
  obtain ⟨hkept, -⟩ := hs.storage_call (y := y) h honly (.storeImage name content)
    ⟨h.length_text (h.mem_names hfrom), h.small name content (.inr hfrom)⟩
    (by rintro _ _ ⟨⟩; exact hfrom) host port
  exact ⟨hkept, fun _ _ => trivial⟩

/-- **One round of a client.** -/
theorem ensures_iteration (h : p.Fits start clients names) (honly : p.Only hosts) (i : ι) :
    Ensures (p.Holds start clients) (fun _ => True)
      ((clients i).iteration (environment y.toYamlLibrary lookup hosts)) := by
  rw [iteration]
  refine (ensures_retrieve h honly i).bind fun image himage => ?_
  rcases image with _ | ⟨text, buffer⟩
  · exact ensures_pure trivial
  obtain ⟨name, rfl, hretrieved⟩ := himage _ rfl
  refine (ensures_manipulate h honly i hretrieved).bind fun ⟨changed, output⟩ hfrom => ?_
  dsimp only
  split
  · exact ensures_pure trivial
  · exact ensures_store h honly (hfrom (by simpa using ‹¬ changed = false›))

theorem ensures_main (h : p.Fits start clients names) (honly : p.Only hosts) (i : ι) (times : ℕ) :
    Ensures (p.Holds start clients) (fun _ => True)
      ((clients i).main (environment y.toYamlLibrary lookup hosts) times) := by
  induction times with
  | zero => exact ensures_pure trivial
  | succ times ih => exact (ensures_iteration h honly i).bind fun _ _ => ih

end Clients

/-- The clients, each with the number of its rounds. Any of them may be started, and again. -/
def pool (y : YamlLibrary) (lookup : Text → Throwing ρ Exn (Text × Text)) (hosts : Hosts (World ρ))
    (clients : ι → Client) : Pool (World ρ × ℕ) (ι × ℕ) (Except Exn (Unit × ℕ)) where
  body call := (((clients call.1).main (environment y lookup hosts) call.2).run 0).run
  admits _ _ _ := True
  decidableAdmits _ _ _ := .isTrue trivial

variable {p}

/-- **Every stored image comes from where it should**, whatever the registry answers, whatever
happens to the connections, and however the steps of the clients alternate: it was stored at first,
or the image manipulation provider has made it of an image with the same name, from a disk or
stored. -/
theorem provenance (y : YamlCpp) {start : FileSystem} (hstart : OnlyImages start)
    {clients : ι → Client} {names : Finset ImageName} (hfits : p.Fits start clients names)
    {hosts : Hosts (World ρ)} (honly : p.Only hosts)
    (lookup : Text → Throwing ρ Exn (Text × Text)) (registry : ρ) (images : ImageKept)
    {actions : List (Pool.Action (ι × ℕ))}
    {s : Pool.State (World ρ × ℕ) (ι × ℕ) (Except Exn (Unit × ℕ))}
    (hrun : (pool y.toYamlLibrary lookup hosts clients).system.run
      { object := (⟨registry, start, images⟩, 0) } actions = some s) :
    OnlyImages s.object.1.storage ∧
      ∀ name content, contents s.object.1.storage name = some content →
        p.From start clients name content := by
  have hensures : ∀ call : ι × ℕ, Routine.Ensures (p.Holds start clients) (fun _ => True)
      ((pool y.toYamlLibrary lookup hosts clients).body call) := fun call =>
    (ensures_main hfits honly call.1 call.2 0).mono fun _ _ => trivial
  obtain ⟨hkept, -⟩ := Pool.ensures_of_run hensures
    (t := (⟨registry, start, images⟩, 0)) ⟨hstart, fun _ _ h => .initial h⟩ hrun
  exact ⟨hkept.onlyImages, hkept.origin⟩

/-- A file name of an image. -/
def sampleImageName : ImageName := ⟨[txt "a.jpg"], by decide, by decide⟩

/-- A disk with one image. -/
def sampleDisk : Disk where
  imageFolder := txt "/home/images"
  norm := Normalization.sampleNormalization
  found := .ok [⟨sampleImageName, some (txt "xyz")⟩]
  resize := .logic (txt "vector::_M_default_append")

theorem sampleDisk_plain : sampleDisk.Plain :=
  ⟨by decide, by decide, by decide, by decide +kernel, by decide⟩

/-- Two clients that make different choices. -/
def sampleClients (i : Bool) : Client where
  disk := sampleDisk
  rand n := if i then 2 * n + 1 else n

def sampleProviders : Providers Byte where
  storage := StorageProvider.sampleSystem
  images := ImageProvider.sampleSystem
  attempts _ := { unique := txt "b" }

/-- The storage provider is at one address, and the image manipulation provider everywhere else. -/
def sampleHosts : Hosts (World SoundRegistry) where
  listening _ host _ := some (if host = txt "10.0.0.2" then sampleProviders.storageInstallation
    else sampleProviders.imagesInstallation)
  unreachable _ _ := .runtime (txt "connect: Connection refused")
  link := lossyLink

/-- The image in the format of the sample has as many pixels as before. -/
theorem length_sample_manipulation (request : ImageRequest) (image : CImg Byte) :
    (request.manipulation ImageProvider.sampleSystem image).data.length = image.data.length := by
  have hturn : ∀ {w h d s : ℕ} (fits : CImg.Fits w h d s) (f : ℕ → ℕ → ℕ → ℕ → Byte),
      (CImg.ofPixels fits f).data.length = w * h * d * s := fun _ _ => CImg.length_raster
  cases request with
  | rotateImage degrees input =>
    show (CImg.rotate _ _ image).data.length = _
    rw [CImg.rotate]
    split
    · rfl
    dsimp only
    split
    · split
      · rw [CImg.turn90, hturn, image.length_data]
        ring
      · rw [CImg.turn180, hturn, image.length_data]
      · rw [CImg.turn270, hturn, image.length_data]
        ring
      · rfl
    · rfl
  | horizontalFlipImage input =>
    show (CImg.mirror image).data.length = _
    rw [image.mirror.length_data, image.length_data, CImg.width_mirror, CImg.height_mirror,
      CImg.depth_mirror, CImg.spectrum_mirror]

/-- No file is longer than the one it is made of. -/
theorem sample_makes {request : ImageRequest} {output : List Byte}
    (h : request.Makes ImageProvider.sampleSystem output) :
    output.length ≤ request.input.length := by
  obtain ⟨filename, image, hload, hjpeg⟩ := h
  have hdata : image.data = request.input := by
    rw [ImageProvider.sampleSystem] at hload
    dsimp only at hload
    split at hload
    · rw [← Except.ok.inj hload]
    · cases hload
  rw [ImageHelper.jpegOf] at hjpeg
  split at hjpeg
  · rw [← Option.some.inj hjpeg]
    exact Nat.zero_le _
  · rw [ImageProvider.sampleSystem] at hjpeg
    dsimp only at hjpeg
    split at hjpeg
    · rw [← Option.some.inj hjpeg, ← hdata]
      exact Nat.le_of_eq (length_sample_manipulation request image)
    · cases hjpeg

theorem sample_onDisk {name : ImageName} {content : List Byte}
    (h : OnDisk sampleClients name content) : name = sampleImageName ∧ content = txt "xyz" := by
  obtain ⟨i, found, hfound, hmem⟩ := h
  rw [← Except.ok.inj hfound] at hmem
  obtain ⟨rfl, hcontent⟩ := DiskFile.mk.inj (List.mem_singleton.mp hmem)
  exact ⟨rfl, Option.some.inj hcontent⟩

theorem sample_fits : sampleProviders.Fits .empty sampleClients {sampleImageName} where
  plain _ := sampleDisk_plain
  initial _ _ h := by cases h
  onDisk name content h := by
    obtain ⟨rfl, rfl⟩ := sample_onDisk h
    exact Finset.mem_singleton_self _
  small name content h := by
    have hdisk : ∀ {name content}, OnDisk sampleClients name content → content.length ≤ 3 :=
      fun h => by rw [(sample_onDisk h).2]; decide
    have hle : content.length ≤ 3 := by
      rcases h with h | h
      · exact hdisk h
      · induction h with
        | initial h => cases h
        | ofDisk request h hmakes => exact (sample_makes hmakes).trans (hdisk h)
        | ofStored request _ hmakes ih => exact (sample_makes hmakes).trans ih
    exact Nat.lt_of_le_of_lt hle (by decide)
  list := by
    rw [Finset.sum_singleton]
    decide

/-- Both clients go three rounds, with the registry as it is. -/
theorem provenance_sample :
    let clientPool := pool storageYaml.toYamlLibrary
      (fun service registry => Registry.sampleAddress.getProvider storageYaml registry service)
      sampleHosts sampleClients
    ∃ actions s, clientPool.system.run
        { object := (⟨Registry.sampleRegistry, .empty, {}⟩, 0) }
        (.start (true, 3) :: .start (false, 3) :: actions) = some s ∧
      s.running = [] ∧ OnlyImages s.object.1.storage ∧
      ∀ name content, contents s.object.1.storage name = some content →
        sampleProviders.From .empty sampleClients name content := by
  intro clientPool
  obtain ⟨s₀, hstart⟩ : ∃ s₀, clientPool.system.run
      { object := (⟨Registry.sampleRegistry, .empty, {}⟩, 0) }
      [.start (true, 3), .start (false, 3)] = some s₀ := ⟨_, rfl⟩
  obtain ⟨actions, s, hrest, hidle⟩ := Pool.exists_run_idle clientPool s₀
  have hrun : clientPool.system.run
      { object := (⟨Registry.sampleRegistry, .empty, {}⟩, 0) }
      ([.start (true, 3), .start (false, 3)] ++ actions) = some s := by
    rw [System.run_append, hstart]
    exact hrest
  have honly : sampleProviders.Only sampleHosts := fun n host port q hq => by
    rw [← Option.some.inj hq]
    split
    · exact .inl rfl
    · exact .inr rfl
  exact ⟨actions, s, hrun, hidle, provenance storageYaml (fun _ _ h => by cases h) sample_fits honly
    _ Registry.sampleRegistry {} hrun⟩

end Providers

end Ssoa
