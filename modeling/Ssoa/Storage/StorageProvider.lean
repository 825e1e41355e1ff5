import Ssoa.Lib.Machine
import Ssoa.Service.Listener
import Ssoa.Storage.StorageService

/-!
# The storage provider is a map

The storage provider offers three services, which store an image under a name, retrieve it, and list
all names. What it is for is to be a map from names to contents, and that is what it is, whatever it
is asked: names may nest, and may clash with the folders of others, but then storing fails and
changes nothing.

The map is what the tree of files says of the names (`contents`), and the history of a run says the
same (`lastStored`).

## Main results

* `StorageProvider.answer_storeImage` — when an image can be stored, and what that changes
* `StorageProvider.refines` — the provider refines the map
* `StorageProvider.storage_is_map` — what it answers after any run
* `StorageProvider.run_onPayloadReceived_skeleton` — its answers are what is written
-/

namespace Ssoa

/-- A skeleton of the storage provider with the files it works on. -/
structure StorageJob where
  service : Service
  files : FileSystem

namespace StorageJob

/-- The arguments of the request. -/
def servicePart : Throwing.Part StorageJob Service Unit where
  part := service
  put j service := { j with service }
  rest _ := ()
  put_part _ := rfl
  part_put _ _ := rfl
  put_put _ _ _ := rfl
  rest_put _ _ := rfl

/-- The files. -/
def filesPart : Throwing.Part StorageJob FileSystem Unit where
  part := files
  put j files := { j with files }
  rest _ := ()
  put_part _ := rfl
  part_put _ _ := rfl
  put_put _ _ _ := rfl
  rest_put _ _ := rfl

/-- `popArgument`. -/
def popArgument (c : ArgumentClass) : Throwing StorageJob Exn ServiceArgument :=
  Throwing.within servicePart fun _ => Service.popArgument c

end StorageJob

/-- `response->pushArgument(arg)`. -/
def Response.withArgument (r : Response) (arg : ServiceArgument) : Except Exn Response :=
  match (Response.pushArgument arg).run r with
  | (.ok _, r') => .ok r'
  | (.error e, _) => .error e

/-! ### The services -/

namespace StoreImageServiceImpl

def serviceSignature : ServiceSignature := .ofText (txt "StoreImage(in string, in buffer)")

def invoke (sys : System) : Throwing StorageJob Exn (Option Response) := do
  let name ← StorageJob.popArgument .string
  let buffer ← StorageJob.popArgument .buffer
  Throwing.within StorageJob.filesPart fun _ => StorageService.saveFile sys name.data buffer.data
  return some (.new serviceSignature true (txt "OK"))

end StoreImageServiceImpl

namespace GetImageServiceImpl

def serviceSignature : ServiceSignature := .ofText (txt "GetImage(in string, out buffer)")

def invoke (sys : System) : Throwing StorageJob Exn (Option Response) := do
  let name ← StorageJob.popArgument .string
  let buffer ← Throwing.within StorageJob.filesPart fun _ => StorageService.loadFile sys name.data
  let response ← (Response.new serviceSignature true (txt "OK")).withArgument (.ofBuffer buffer)
  return some response

end GetImageServiceImpl

namespace GetListServiceImpl

def serviceSignature : ServiceSignature := .ofText (txt "GetList(out buffer)")

/-- `invoke()`, whatever `StorageService::getList` returns. -/
def invokeOn (getList : Throwing FileSystem Exn (List Text)) :
    Throwing StorageJob Exn (Option Response) := do
  let list ← Throwing.within StorageJob.filesPart fun _ => getList
  -- each name with a NUL after it
  let buffer := list.flatMap wire
  let response ← (Response.new serviceSignature true (txt "OK")).withArgument (.ofBuffer buffer)
  return some response

def invoke (sys : System) : Throwing StorageJob Exn (Option Response) :=
  invokeOn (StorageService.getList sys)

end GetListServiceImpl

namespace GetListService

/-- The loop of `GetListService::invoke` on the client's side: it reads one C string after the
other, and keeps those that are not empty. -/
def items (buffer : List Byte) : List Text :=
  match buffer with
  | [] => []
  | b :: rest =>
    let item := cstr (b :: rest)
    (if item = [] then [] else [item]) ++ items ((b :: rest).drop (item.length + 1))
termination_by buffer.length

/-- What the client makes of the buffer, to which it appends a NUL. -/
def receive (buffer : List Byte) : List Text := items (buffer ++ [0])

theorem items_wire_append {s : Text} (hs : s ≠ []) (h : 0 ∉ s) (rest : List Byte) :
    items (wire s ++ rest) = s :: items rest := by
  have hcstr := cstr_wire_append h rest
  have hdrop := drop_wire_append s rest
  cases hbuffer : wire s ++ rest with
  | nil => simp [wire] at hbuffer
  | cons b tail =>
    rw [hbuffer] at hcstr hdrop
    rw [items, hcstr, hdrop, if_neg hs]
    rfl

/-- The client gets the texts that were put into the buffer. -/
theorem receive_flatMap_wire {list : List Text} (h : ∀ s ∈ list, s ≠ [] ∧ 0 ∉ s) :
    receive (list.flatMap wire) = list := by
  rw [receive]
  induction list with
  | nil =>
    show items [0] = []
    rw [items]
    simp [cstr, items]
  | cons s list ih =>
    obtain ⟨hs, hzero⟩ := h s List.mem_cons_self
    rw [List.flatMap_cons, List.append_assoc, items_wire_append hs hzero,
      ih fun t ht => h t (List.mem_cons_of_mem _ ht)]

end GetListService

/-- A request for one of the three services. -/
inductive StorageRequest where
  | storeImage (name : ImageName) (content : List Byte)
  | getImage (name : ImageName)
  | getList

namespace StorageRequest

/-- The service and the arguments. -/
def service : StorageRequest → Service
  | storeImage name content => .ofArguments StoreImageServiceImpl.serviceSignature
      [.ofString name.text, .ofBuffer content]
  | getImage name => .ofArguments GetImageServiceImpl.serviceSignature [.ofString name.text]
  | getList => .ofArguments GetListServiceImpl.serviceSignature []

/-- `invoke()` of the class that is installed for the service. -/
def invoke (sys : System) : StorageRequest → Throwing StorageJob Exn (Option Response)
  | storeImage _ _ => StoreImageServiceImpl.invoke sys
  | getImage _ => GetImageServiceImpl.invoke sys
  | getList => GetListServiceImpl.invoke sys

end StorageRequest

/-! ### Popping and pushing -/

/-- A service with other arguments left to pop. -/
def Service.left (s : Service) (arguments : List ServiceArgument) : Service := { s with arguments }

/-- Popping the next argument, for a service all of whose arguments were pushed. -/
theorem StorageJob.run_popArgument {s : Service} {a : ServiceArgument}
    {rest : List ServiceArgument} {c : ArgumentClass}
    (hall : s.pushed = s.signature.inputParams.length) (h : s.arguments = a :: rest)
    (hc : a.kind = c) (t : FileSystem) :
    (StorageJob.popArgument c).run ⟨s, t⟩ = (.ok a, ⟨s.left rest, t⟩) := by
  subst hc
  have hservice : (Service.popArgument a.kind).run s = (.ok a, s.left rest) :=
    Throwing.run_within_of_eq Service.queue (x := fun params =>
      ArgumentQueue.popArgument params a.kind) (ArgumentQueue.popArgument_of_cons hall h)
  exact Throwing.run_within_of_eq StorageJob.servicePart
    (x := fun _ => Service.popArgument a.kind) (s := ⟨s, t⟩) hservice

theorem StorageJob.run_within_files {α : Type} {x : Throwing FileSystem Exn α} {r : Except Exn α}
    {t t' : FileSystem} (h : x.run t = (r, t')) (s : Service) :
    (Throwing.within StorageJob.filesPart fun _ => x).run ⟨s, t⟩ = (r, ⟨s, t'⟩) :=
  Throwing.run_within_of_eq StorageJob.filesPart (x := fun _ => x) (s := ⟨s, t⟩) h

/-- A successful response with one argument. -/
def Response.single (signature : ServiceSignature) (status : Text) (arg : ServiceArgument) :
    Response where
  signature := signature
  successful := true
  status := status
  arguments := [arg]
  pushed := 1

theorem Response.withArgument_new {signature : ServiceSignature} {arg : ServiceArgument}
    (h : signature.outputParams = [arg.kind.type]) (status : Text) :
    (Response.new signature true status).withArgument arg = .ok (.single signature status arg) := by
  have hnext : (Response.new signature true status).signature.outputParams[
      (Response.new signature true status).pushed]? = some arg.kind.type := by
    show signature.outputParams[0]? = _
    rw [h]
    rfl
  rw [withArgument, Response.run_pushArgument hnext]
  rfl

/-! ### What the services do -/

/-- What storing an image does is what `saveFile` does. -/
theorem StoreImageServiceImpl.run_invoke (sys : System) (name : ImageName) (content : List Byte)
    (t : FileSystem) : ∃ s, (invoke sys).run ⟨(StorageRequest.storeImage name content).service, t⟩ =
      (((StorageService.saveFile sys name.text content).run t).1.map fun _ =>
          some (.new serviceSignature true (txt "OK")),
        ⟨s, ((StorageService.saveFile sys name.text content).run t).2⟩) := by
  have hlen : 2 = serviceSignature.inputParams.length := by decide +kernel
  have hname := StorageJob.run_popArgument (c := .string)
    (s := (StorageRequest.storeImage name content).service) hlen rfl rfl t
  have hbuffer := StorageJob.run_popArgument (c := .buffer)
    (s := (StorageRequest.storeImage name content).service.left [.ofBuffer content]) hlen rfl rfl t
  refine ⟨((StorageRequest.storeImage name content).service.left [.ofBuffer content]).left [], ?_⟩
  rw [invoke, Throwing.run_bind_of_ok hname, Throwing.run_bind_of_ok hbuffer]
  rcases hsave : (StorageService.saveFile sys name.text content).run t with ⟨e | _, t'⟩
  · exact Throwing.run_bind_of_error (StorageJob.run_within_files hsave _)
  · exact Throwing.run_bind_of_ok (StorageJob.run_within_files hsave _)

/-- What retrieving an image does is what `loadFile` does. -/
theorem GetImageServiceImpl.run_invoke (sys : System) (name : ImageName) (t : FileSystem) :
    ∃ s, (invoke sys).run ⟨(StorageRequest.getImage name).service, t⟩ =
      (((StorageService.loadFile sys name.text).run t).1.map fun content =>
          some (.single serviceSignature (txt "OK") (.ofBuffer content)),
        ⟨s, ((StorageService.loadFile sys name.text).run t).2⟩) := by
  have hlen : 1 = serviceSignature.inputParams.length := by decide +kernel
  have houtput : serviceSignature.outputParams = [txt "buffer"] := by decide +kernel
  have hname := StorageJob.run_popArgument (c := .string)
    (s := (StorageRequest.getImage name).service) hlen rfl rfl t
  refine ⟨(StorageRequest.getImage name).service.left [], ?_⟩
  rw [invoke, Throwing.run_bind_of_ok hname,
    show (ServiceArgument.ofString name.text).data = name.text from rfl]
  rcases hload : (StorageService.loadFile sys name.text).run t with ⟨e | content, t'⟩
  · exact Throwing.run_bind_of_error (StorageJob.run_within_files hload _)
  · rw [Throwing.run_bind_of_ok (StorageJob.run_within_files hload _), Throwing.run_lift_bind,
      Response.withArgument_new houtput]
    rfl

/-- Whatever lists the images, the names are put into the buffer of the response. -/
theorem GetListServiceImpl.run_invokeOn (getList : Throwing FileSystem Exn (List Text))
    (s : Service) (t : FileSystem) : (invokeOn getList).run ⟨s, t⟩ =
      ((getList.run t).1.map fun list =>
          some (.single serviceSignature (txt "OK") (.ofBuffer (list.flatMap wire))),
        ⟨s, (getList.run t).2⟩) := by
  have houtput : serviceSignature.outputParams = [txt "buffer"] := by decide +kernel
  rw [invokeOn]
  rcases hlist : getList.run t with ⟨e | list, t'⟩
  · exact Throwing.run_bind_of_error (StorageJob.run_within_files hlist _)
  · rw [Throwing.run_bind_of_ok (StorageJob.run_within_files hlist _), Throwing.run_lift_bind,
      Response.withArgument_new houtput]
    rfl

/-- What listing the images does is what `getList` does. -/
theorem GetListServiceImpl.run_invoke (sys : System) (t : FileSystem) :
    ∃ s, (invoke sys).run ⟨StorageRequest.getList.service, t⟩ =
      (((StorageService.getList sys).run t).1.map fun list =>
          some (.single serviceSignature (txt "OK") (.ofBuffer (list.flatMap wire))),
        ⟨s, ((StorageService.getList sys).run t).2⟩) :=
  ⟨_, run_invokeOn (StorageService.getList sys) _ t⟩

/-! ### Answers -/

/-- The response to a request, as the handler of the connection sends it, and the files after it. -/
def StorageRequest.answer (sys : System) (request : StorageRequest) (t : FileSystem) :
    Response × FileSystem :=
  match (request.invoke sys).run ⟨request.service, t⟩ with
  | (.ok r, j) =>
    (SerializationHelper.returned r { signature := request.service.signature }, j.files)
  | (.error e, j) => (.new request.service.signature false
      (txt "Internal server error: " ++ e.what), j.files)

namespace StorageProvider

open StorageService StorageRequest

variable {sys : System} {t : FileSystem} {name : ImageName}

/-- What is stored under each name. -/
def contents (t : FileSystem) (name : ImageName) : Option (List Byte) := t.readFile (place name)

/-- **Storing an image** under a storable name changes what is stored under it; under another name
it fails and changes nothing. -/
theorem answer_storeImage (sys : System) (name : ImageName) (content : List Byte)
    (t : FileSystem) :
    (((storeImage name content).answer sys t).1.successful = false ∧ ¬ Storable t name ∧
      ∀ p, ((storeImage name content).answer sys t).2.readFile p = t.readFile p) ∨
    (((storeImage name content).answer sys t).1.successful = true ∧ Storable t name ∧
      ∀ p, ((storeImage name content).answer sys t).2.readFile p =
        if p = place name then some content else t.readFile p) := by
  obtain ⟨s, hrun⟩ := StoreImageServiceImpl.run_invoke sys name content t
  rw [answer, StorageRequest.invoke, hrun]
  obtain ⟨hno, e, t', hsave, hsame⟩ | ⟨hstorable, t', hsave, hwrite⟩ :=
    saveFile_cases sys name content t
  · rw [hsave]
    exact .inl ⟨rfl, hno, hsame⟩
  · rw [hsave]
    exact .inr ⟨rfl, hstorable, hwrite⟩

/-- **Retrieving an image** returns what is stored under its name, or fails when nothing is. -/
theorem answer_getImage (sys : System) (name : ImageName) (t : FileSystem) :
    (contents t name = none ∧ ((getImage name).answer sys t).1.successful = false ∧
      ((getImage name).answer sys t).2 = t) ∨
    ∃ content, contents t name = some content ∧ (getImage name).answer sys t =
      (.single GetImageServiceImpl.serviceSignature (txt "OK") (.ofBuffer content), t) := by
  obtain ⟨s, hrun⟩ := GetImageServiceImpl.run_invoke sys name t
  rw [answer, StorageRequest.invoke, hrun]
  obtain ⟨content, hread, hload⟩ | ⟨hread, e, hload⟩ := loadFile_cases sys name t
  · rw [hload]
    exact .inr ⟨content, hread, rfl⟩
  · rw [hload]
    exact .inl ⟨hread, rfl, rfl⟩

/-- **Listing the images** returns their names. -/
theorem answer_getList (sys : System) (h : OnlyImages t) : ∃ names : List ImageName,
    names.Nodup ∧ (∀ name, name ∈ names ↔ contents t name ≠ none) ∧ getList.answer sys t =
      (.single GetListServiceImpl.serviceSignature (txt "OK")
        (.ofBuffer ((names.map ImageName.text).flatMap wire)), t) := by
  obtain ⟨s, hrun⟩ := GetListServiceImpl.run_invoke sys t
  obtain ⟨names, hnodup, hmem, hlist⟩ := getList_eq sys h
  refine ⟨names, hnodup, hmem, ?_⟩
  rw [answer, StorageRequest.invoke, hrun, hlist]
  rfl

/-! ### The map -/

/-- What the map allows as answer to a request and as contents after it. -/
def Allowed (stored : ImageName → Option (List Byte)) (request : StorageRequest) (r : Response)
    (stored' : ImageName → Option (List Byte)) : Prop :=
  match request with
  | .storeImage name content =>
    stored' = if r.successful then Function.update stored name (some content) else stored
  | .getImage name => stored' = stored ∧
    match stored name with
    | none => r.successful = false
    | some content => r.successful = true ∧ r.arguments = [.ofBuffer content]
  | .getList => stored' = stored ∧ r.successful = true ∧ ∃ names : List ImageName, names.Nodup ∧
    (∀ name, name ∈ names ↔ stored name ≠ none) ∧
    r.arguments = [.ofBuffer ((names.map ImageName.text).flatMap wire)]

theorem onlyImages_answer (sys : System) (h : OnlyImages t) (request : StorageRequest) :
    OnlyImages (request.answer sys t).2 := by
  cases request with
  | storeImage name content =>
    intro cs content' hread
    obtain ⟨-, -, hsame⟩ | ⟨-, -, hwrite⟩ := answer_storeImage sys name content t
    · exact h cs content' (hsame _ ▸ hread)
    · rw [hwrite] at hread
      split at hread
      · next heq => exact ⟨name, (List.cons.inj heq).2⟩
      · exact h cs content' hread
  | getImage name =>
    obtain ⟨-, -, hsame⟩ | ⟨content, -, heq⟩ := answer_getImage sys name t
    · rwa [hsame]
    · rwa [heq]
  | getList =>
    obtain ⟨names, -, -, heq⟩ := answer_getList sys h
    rwa [heq]

/-- Every answer is one the map allows. -/
theorem allowed_answer (sys : System) (h : OnlyImages t) (request : StorageRequest) :
    Allowed (contents t) request (request.answer sys t).1 (contents (request.answer sys t).2) := by
  cases request with
  | storeImage name content =>
    obtain ⟨hr, -, hsame⟩ | ⟨hr, -, hwrite⟩ := answer_storeImage sys name content t
    · rw [Allowed, hr]
      exact funext fun name' => hsame _
    · rw [Allowed, hr, if_pos rfl]
      funext name'
      rw [contents, hwrite, Function.update_apply]
      by_cases hname : name' = name
      · rw [if_pos (congrArg place hname), if_pos hname]
      · rw [if_neg fun heq => hname (place_injective heq), if_neg hname]
        rfl
  | getImage name =>
    obtain ⟨hnone, hr, hsame⟩ | ⟨content, hsome, heq⟩ := answer_getImage sys name t
    · simp only [Allowed, hnone, hr, hsame, and_self]
    · simp only [Allowed, hsome, heq, true_and]
      exact ⟨rfl, rfl⟩
  | getList =>
    obtain ⟨names, hnodup, hmem, heq⟩ := answer_getList sys h
    rw [heq]
    exact ⟨rfl, rfl, names, hnodup, hmem, rfl⟩

/-- The provider, started on these files. -/
def machine (sys : System) (start : FileSystem) : Machine FileSystem StorageRequest Response :=
  ⟨start, fun t request => request.answer sys t⟩

/-- The storage folder is not there, or there is nothing in it. -/
def EmptyFolder (t : FileSystem) : Prop :=
  t.lookup [txt "database"] = none ∨
    t.lookup [txt "database"] = some .folder ∧ t.below [txt "database"] = []

theorem EmptyFolder.readFile (h : EmptyFolder t) (cs : List Text) :
    t.readFile (txt "database" :: cs) = none := by
  rw [Option.eq_none_iff_forall_ne_some]
  intro content hread
  have hlookup := FileTree.readFile_eq_some.mp hread
  by_cases hcs : cs = []
  · subst hcs
    rcases h with hnone | ⟨hfolder, -⟩
    · rw [hlookup] at hnone
      cases hnone
    · rw [hlookup] at hfolder
      cases hfolder
  · rcases h with hnone | ⟨-, hbelow⟩
    · have hfolder : t.lookup [txt "database"] = some .folder :=
        FileTree.lookup_of_prefix hcs hlookup
      rw [hnone] at hfolder
      cases hfolder
    · have hmem : (txt "database" :: cs, Entry.file content) ∈ t.below [txt "database"] :=
        FileTree.mem_below.mpr ⟨cs, hcs, rfl, hlookup⟩
      rw [hbelow] at hmem
      exact absurd hmem List.not_mem_nil

theorem EmptyFolder.contents (h : EmptyFolder t) : contents t = fun _ => none :=
  funext fun name => h.readFile name.components

/-- **The provider refines the map.** -/
theorem refines (sys : System) (h : EmptyFolder t) :
    (machine sys t).Refines OnlyImages contents Allowed where
  invariant := {
    init := fun cs content hread => by
      have hnone := h.readFile cs
      rw [show t.readFile _ = some content from hread] at hnone
      cases hnone
    step := fun _ request ht => onlyImages_answer sys ht request }
  step _ request ht := allowed_answer sys ht request

/-! ### Runs -/

/-- What a request leaves stored, when it was answered like this. -/
def record (stored : ImageName → Option (List Byte)) :
    StorageRequest × Response → ImageName → Option (List Byte)
  | (.storeImage name content, r) =>
    if r.successful then Function.update stored name (some content) else stored
  | (.getImage _, _) => stored
  | (.getList, _) => stored

/-- What was stored last under each name, with success. -/
def lastStored (history : List (StorageRequest × Response)) : ImageName → Option (List Byte) :=
  history.foldl record fun _ => none

theorem Allowed.record {stored stored' : ImageName → Option (List Byte)} {request : StorageRequest}
    {r : Response} (h : Allowed stored request r stored') :
    stored' = record stored (request, r) := by
  cases request with
  | storeImage name content => exact h
  | getImage name => exact h.1
  | getList => exact h.1

/-- In a run of the map, what is stored is what the history says. -/
theorem foldl_record_of_allows {stored stored' : ImageName → Option (List Byte)}
    {requests : List StorageRequest} {answers : List Response}
    (h : Machine.Allows Allowed stored requests answers stored') :
    stored' = (requests.zip answers).foldl record stored := by
  induction h with
  | nil => rfl
  | cons hstep _ ih => rw [ih, hstep.record, List.zip_cons_cons, List.foldl_cons]

/-- After a run whose history is `history`, the provider answers as a map does. -/
structure AnswersAsMap (sys : System) (t : FileSystem)
    (history : List (StorageRequest × Response)) : Prop where
  /-- Retrieving a name returns what was stored last. -/
  retrieves : ∀ name content, lastStored history name = some content →
    ((getImage name).answer sys t).1.successful = true ∧
      ((getImage name).answer sys t).1.arguments = [.ofBuffer content]
  /-- A name under which nothing was stored is not found. -/
  fails : ∀ name, lastStored history name = none →
    ((getImage name).answer sys t).1.successful = false
  /-- The list has each name once under which something was stored, and so has what the client
  makes of it. -/
  lists : (getList.answer sys t).1.successful = true ∧
    ∃ (names : List ImageName) (buffer : List Byte),
      (getList.answer sys t).1.arguments = [.ofBuffer buffer] ∧
      GetListService.receive buffer = names.map ImageName.text ∧
      names.Nodup ∧ ∀ name, name ∈ names ↔ lastStored history name ≠ none
  /-- A request that fails leaves everything stored as it was. -/
  unchanged : ∀ request : StorageRequest, (request.answer sys t).1.successful = false →
    contents (request.answer sys t).2 = contents t
  /-- What is stored is what was stored last. -/
  contents_eq : contents t = lastStored history

/-- **The storage provider is a map from names to contents**, after any run that starts with an
absent or empty folder. -/
theorem storage_is_map (sys : System) (start : FileSystem) (h : EmptyFolder start)
    (requests : List StorageRequest) :
    let run := (machine sys start).runFrom start requests
    AnswersAsMap sys run.2 (requests.zip run.1) := by
  intro run
  have hrefines := refines sys h
  have honly : OnlyImages run.2 := hrefines.invariant.runFrom hrefines.invariant.init requests
  have hcontents : contents run.2 = lastStored (requests.zip run.1) := by
    rw [lastStored, ← h.contents]
    exact foldl_record_of_allows (hrefines.run hrefines.invariant.init requests)
  refine ⟨fun name content hstored => ?_, fun name hnone => ?_, ?_, fun request hfails => ?_,
    hcontents⟩
  · have hallowed := allowed_answer sys honly (getImage name)
    rw [Allowed, hcontents, hstored] at hallowed
    exact hallowed.2
  · have hallowed := allowed_answer sys honly (getImage name)
    rw [Allowed, hcontents, hnone] at hallowed
    exact hallowed.2
  · obtain ⟨-, hr, names, hnodup, hmem, hargs⟩ := allowed_answer sys honly getList
    refine ⟨hr, names, _, hargs, GetListService.receive_flatMap_wire ?_, hnodup, hcontents ▸ hmem⟩
    intro s hs
    obtain ⟨name, -, rfl⟩ := List.mem_map.mp hs
    exact ⟨name.text_ne_nil, name.zero_not_mem_text⟩
  · have hallowed := allowed_answer sys honly request
    cases request with
    | storeImage name content =>
      rw [Allowed, hfails] at hallowed
      exact hallowed
    | getImage name => exact hallowed.1
    | getList => exact hallowed.1

/-- A system that lists folders in the order of their entries. -/
def sampleSystem : System where
  createDirectory p := .runtime (txt "boost::filesystem::create_directory: " ++ p)
  notFolder p := .runtime (txt "boost::filesystem::directory_iterator::construct: " ++ p)
  readFolder _ := .logic (txt "vector::_M_default_append")
  strerror := txt "Is a directory"
  order := id
  order_perm := List.Perm.refl

/-- The name `a`, for which a file is needed. -/
def sampleName : ImageName := ⟨[txt "a"], by decide, by decide⟩

/-- The name `a/b`, for which a folder is needed there. -/
def nestedName : ImageName := ⟨[txt "a", txt "b"], by decide, by decide⟩

/-- Requests with names of which one needs a folder where the other needs a file. -/
def sampleRequests : List StorageRequest :=
  [.storeImage nestedName (txt "x"), .storeImage sampleName (txt "y"),
    .storeImage nestedName (txt "z"), .getImage nestedName, .getImage sampleName]

theorem storage_is_map_sample : EmptyFolder (FileTree.empty : FileSystem) ∧
    AnswersAsMap sampleSystem ((machine sampleSystem .empty).runFrom .empty sampleRequests).2
      (sampleRequests.zip ((machine sampleSystem .empty).runFrom .empty sampleRequests).1) :=
  ⟨.inl rfl, storage_is_map sampleSystem .empty (.inl rfl) sampleRequests⟩

example : ((machine sampleSystem .empty).runFrom .empty sampleRequests).1.map
    (fun r => (r.successful, r.arguments)) =
      [(false, []), (true, []), (false, []), (false, []), (true, [.ofBuffer (txt "y")])] := by
  decide +kernel

/-! ### The connection -/

open SerializationHelper

/-- The skeleton that is created for a request, on these files. -/
def skeleton (sys : System) (request : StorageRequest) (t : FileSystem) : Skeleton :=
  ⟨request.service, fun s => ((request.invoke sys).run ⟨s, t⟩).1⟩

theorem exists_of_map_eq_ok {α β : Type} {x : Except Exn α} {f : α → β} {b : β}
    (h : x.map f = .ok b) : ∃ a, b = f a := by
  cases x with
  | error e => cases h
  | ok a => exact ⟨a, (Except.ok.inj h).symm⟩

theorem not_deficient_of_length {r : Response}
    (h : r.signature.outputParams.length = r.arguments.length) : ¬ Deficient (some r) := by
  rintro ⟨r', hr, -, hlt⟩
  obtain rfl := Option.some.inj hr
  exact absurd (h ▸ hlt) (Nat.lt_irrefl _)

/-- The services push all output arguments. -/
theorem not_deficient_of_invoke {request : StorageRequest} {r : Option Response}
    (h : ((request.invoke sys).run ⟨request.service, t⟩).1 = .ok r) : ¬ Deficient r := by
  cases request with
  | storeImage name content =>
    obtain ⟨s, hrun⟩ := StoreImageServiceImpl.run_invoke sys name content t
    rw [StorageRequest.invoke, hrun] at h
    obtain ⟨_, rfl⟩ := exists_of_map_eq_ok h
    have hlen : StoreImageServiceImpl.serviceSignature.outputParams.length = 0 := by decide +kernel
    exact not_deficient_of_length hlen
  | getImage name =>
    obtain ⟨s, hrun⟩ := GetImageServiceImpl.run_invoke sys name t
    rw [StorageRequest.invoke, hrun] at h
    obtain ⟨_, rfl⟩ := exists_of_map_eq_ok h
    have hlen : GetImageServiceImpl.serviceSignature.outputParams.length = 1 := by decide +kernel
    exact not_deficient_of_length hlen
  | getList =>
    obtain ⟨s, hrun⟩ := GetListServiceImpl.run_invoke sys t
    rw [StorageRequest.invoke, hrun] at h
    obtain ⟨_, rfl⟩ := exists_of_map_eq_ok h
    have hlen : GetListServiceImpl.serviceSignature.outputParams.length = 1 := by decide +kernel
    exact not_deficient_of_length hlen

theorem answer_fst (sys : System) (request : StorageRequest) (t : FileSystem) :
    (request.answer sys t).1 =
      reply request.service.signature ((request.invoke sys).run ⟨request.service, t⟩).1 := by
  rw [answer]
  rcases (request.invoke sys).run ⟨request.service, t⟩ with ⟨e | r, j⟩ <;> rfl

/-- **The answers are what is written**: the handler that invokes the skeleton of a request writes
the answer to it. -/
theorem run_onPayloadReceived_skeleton {p : ServiceProvider} {c : Connection} (halive : c.Alive)
    (sys : System) (request : StorageRequest) (t : FileSystem) {h : SerializationHelper}
    (hsignature : h.signature = request.service.signature)
    (hcreate : p.factory.create h.signature.signature (h.payloadBuffers.map Prod.fst) =
      .ok (skeleton sys request t)) :
    ∃ u, (onPayloadReceived p c none).run h = (.ok (), u) ∧
      u.responses = h.responses ++ [(request.answer sys t).1] := by
  have hresult : result p h.signature (h.payloadBuffers.map Prod.fst) =
      ((request.invoke sys).run ⟨request.service, t⟩).1 := by
    rw [result, hcreate]
    rfl
  rw [answer_fst, ← hsignature, ← hresult]
  exact run_onPayloadReceived_result halive fun r hr =>
    not_deficient_of_invoke (hresult.symm.trans hr)

end StorageProvider

end Ssoa
