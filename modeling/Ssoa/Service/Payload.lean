import Ssoa.Service.Argument
import Ssoa.Yaml

/-!
# Headers and payloads

A request and a response are both a YAML header, a NUL, and the memory of the arguments one after
the other; the `blocks` field of the header has their sizes. The receiver reads up to the NUL,
which may fetch some of the payload too, prepares an argument for each block, gives it what has
been fetched, and reads the rest. This last part is written twice in the source, with one
difference: the skeleton keeps the number of bytes fetched in a `size_t`, `Response::deserialize`
keeps it in an `int`.

`Carries` says what the arguments are, without the over-read and without the loop.

## Main results

* `prepareArguments_fill` — the arguments do not depend on how much had been fetched
* `carries_iff` — they are the ones the payload carries
* `payload_splitting` — argument by argument, for both loops
-/

namespace Ssoa

open Scatter

/-- `read_until(s, b, '\0')`, when it fetches so many bytes past the delimiter if there are as
many: the content of the buffer, the number of bytes up to the delimiter and what is left in the
stream. Without a delimiter it fails. -/
def readUntil (stream : List Byte) (overRead : ℕ) : Option (List Byte × ℕ × List Byte) :=
  if 0 ∈ stream then
    let n := (cstr stream).length + 1
    some (stream.take (n + overRead), n, stream.drop (n + overRead))
  else none

/-- `(int)buffer_size(arg->getData())` for each argument. -/
def blocksOf (args : List ServiceArgument) : List (BitVec 32) :=
  args.map fun a => .ofNat 32 a.data.length

/-- The loop that reads the `blocks` field: each is read as an `int` and kept as an
`unsigned int`. -/
def readBlocks (y : YamlReader) (node : y.Node) : Except Exn (List (BitVec 32)) := do
  let blocksNode ← y.get node (txt "blocks")
  (List.range (y.size blocksNode)).mapM fun i => do y.toInt (← y.item blocksNode i)

/-- The loop that prepares the arguments and gives them what has been fetched, with the conversion
of the number of bytes fetched as a parameter. The lists have the same length. -/
def prepareArguments (fetchedSize : ℕ → ℤ) :
    List Text → List (BitVec 32) → List Byte → Except Exn (List (Buffer ServiceArgument))
  | type :: params, block :: blocks, headerBuffer => do
    let arg ← ServiceArgument.prepare type block.toNat
    let fetched := fetchedSize headerBuffer.length
    if fetched > 0 then
      let n := if block.toNat < fetched.toNat then block.toNat else fetched.toNat
      let rest ← prepareArguments fetchedSize params blocks (headerBuffer.drop n)
      return (arg.write 0 headerBuffer, fetched.toNat) :: rest
    else
      let rest ← prepareArguments fetchedSize params blocks headerBuffer
      return (arg, 0) :: rest
  | _, _, _ => return []

/-- `size_t fetched_size`. -/
def sizeT (n : ℕ) : ℤ := n

/-- `int fetched_size`. -/
def intT (n : ℕ) : ℤ := (BitVec.ofNat 32 n).toInt

theorem intT_of_lt {n : ℕ} (h : n < 2 ^ 31) : intT n = n := by
  have htoNat : (BitVec.ofNat 32 n).toNat = n := by
    rw [BitVec.toNat_ofNat]
    omega
  rw [intT, BitVec.toInt_eq_toNat_of_lt (by omega), htoNat]

/-! ### The header -/

theorem mapM_range_eq {α : Type} {f : ℕ → Except Exn α} {as : List α}
    (h : ∀ i (hi : i < as.length), f i = .ok as[i]) : (List.range as.length).mapM f = .ok as := by
  rw [List.range_eq_range']
  suffices hgen : ∀ start, (∀ i (hi : i < as.length), f (start + i) = .ok as[i]) →
      (List.range' start as.length).mapM f = .ok as from hgen 0 (by simpa using h)
  clear h
  induction as with
  | nil => exact fun _ _ => rfl
  | cons a as ih =>
    intro start h
    have ha : f start = .ok a := h 0 (Nat.succ_pos _)
    have has : (List.range' (start + 1) as.length).mapM f = .ok as := ih (start + 1) fun i hi => by
      have hstep : start + 1 + i = start + (i + 1) := by omega
      rw [hstep]
      exact h (i + 1) (Nat.succ_lt_succ hi)
    rw [List.length_cons, List.range'_succ, List.mapM_cons, ha, has]
    rfl

/-- Emitted blocks are read back. -/
theorem YamlReader.IsMap.readBlocks {y : YamlReader} {node : y.Node} {fields : Document}
    (h : y.IsMap node fields) {zs : List (BitVec 32)}
    (hkey : fields.lookup (txt "blocks") = some (.ints zs)) : readBlocks y node = .ok zs := by
  obtain ⟨child, hget, hsize, hitems⟩ := h.ints _ hkey
  rw [Ssoa.readBlocks, hget]
  show (List.range (y.size child)).mapM _ = _
  rw [hsize]
  refine mapM_range_eq fun i hi => ?_
  obtain ⟨n, hitem, hint⟩ := hitems i hi
  rw [hitem]
  exact hint

theorem readUntil_of_not_mem {stream : List Byte} (h : 0 ∉ stream) (overRead : ℕ) :
    readUntil stream overRead = none := by
  rw [readUntil, if_neg h]

/-- What comes after the header and its NUL. -/
def payloadOf (stream : List Byte) : List Byte := stream.drop ((cstr stream).length + 1)

theorem payloadOf_wire {header : Text} (h : 0 ∉ header) (payload : List Byte) :
    payloadOf (wire header ++ payload) = payload := by
  rw [payloadOf, cstr_wire_append h]
  exact List.drop_left' (by simp [wire])

theorem readUntil_wire {header : Text} (h : 0 ∉ header) (payload : List Byte) (overRead : ℕ) :
    readUntil (wire header ++ payload) overRead = some (wire header ++ payload.take overRead,
      header.length + 1, payload.drop overRead) := by
  have hmem : (0 : Byte) ∈ wire header ++ payload := by simp [wire]
  have hlen : header.length + 1 + overRead = (wire header).length + overRead := by simp [wire]
  rw [readUntil, if_pos hmem, cstr_wire_append h]
  dsimp only
  rw [hlen, List.take_length_add_append, List.drop_length_add_append]

/-- A stream with a delimiter is a header, a NUL and a payload. -/
theorem wire_append_payloadOf {stream : List Byte} (h : 0 ∈ stream) :
    wire (cstr stream) ++ payloadOf stream = stream := by
  obtain ⟨t, payload, rfl, ht⟩ := List.eq_append_cons_of_mem h
  have hwire : t ++ 0 :: payload = wire t ++ payload := by simp [wire]
  rw [hwire, cstr_wire_append ht, payloadOf_wire ht]

theorem readUntil_of_mem {stream : List Byte} (h : 0 ∈ stream) (overRead : ℕ) :
    readUntil stream overRead = some (wire (cstr stream) ++ (payloadOf stream).take overRead,
      (cstr stream).length + 1, (payloadOf stream).drop overRead) := by
  conv_lhs => rw [← wire_append_payloadOf h]
  exact readUntil_wire (zero_not_mem_cstr stream) _ overRead

theorem take_wire_append (header : Text) (payload : List Byte) :
    (wire header ++ payload).take (header.length + 1 - 1) = header := by
  rw [wire, List.append_assoc, Nat.add_sub_cancel, List.take_left' rfl]

theorem drop_wire_append (header : Text) (payload : List Byte) :
    (wire header ++ payload).drop (header.length + 1) = payload :=
  List.drop_left' (by simp [wire])

/-! ### The payload -/

/-- Prepare an argument for each block. -/
def prepareAll : List Text → List (BitVec 32) → Except Exn (List ServiceArgument)
  | type :: params, block :: blocks => do
    let arg ← ServiceArgument.prepare type block.toNat
    let rest ← prepareAll params blocks
    return arg :: rest
  | _, _ => return []

/-- The arguments have these types and these sizes, and their bytes are the beginning of the
payload. -/
structure Carries (params : List Text) (blocks : List (BitVec 32)) (payload : List Byte)
    (args : List ServiceArgument) : Prop where
  types : args.map (·.kind.type) = params
  sizes : args.map (·.data.length) = blocks.map BitVec.toNat
  bytes : (args.map (·.data)).flatten <+: payload

theorem write_nil (a : ServiceArgument) : a.write 0 [] = a :=
  ServiceArgument.ext_data rfl (by simp [ServiceArgument.write, overwrite])

theorem size_of_prepare {type : Text} {n : ℕ} {a : ServiceArgument}
    (h : ServiceArgument.prepare type n = .ok a) : size a = n := by
  obtain ⟨c, hfits, -, rfl⟩ := ServiceArgument.prepare_eq_ok_iff.mp h
  simp [ServiceArgument.zeroed]

/-- The loop, in two steps. -/
theorem prepareArguments_eq {fetchedSize : ℕ → ℤ} {params : List Text} {blocks : List (BitVec 32)}
    {headerBuffer : List Byte} (h : ∀ n ≤ headerBuffer.length, fetchedSize n = n) :
    prepareArguments fetchedSize params blocks headerBuffer =
      (prepareAll params blocks).map (prefetch · headerBuffer) := by
  induction params generalizing blocks headerBuffer with
  | nil => rfl
  | cons type params ih =>
    obtain _ | ⟨block, blocks⟩ := blocks
    · rfl
    cases hprepare : ServiceArgument.prepare type block.toNat with
    | error e => simp [prepareArguments, prepareAll, hprepare, bind, Except.bind, Except.map]
    | ok arg =>
      have hsize : size arg = block.toNat := size_of_prepare hprepare
      have hfetched : fetchedSize headerBuffer.length = headerBuffer.length := h _ (Nat.le_refl _)
      have hdrop : headerBuffer.drop
          (if block.toNat < headerBuffer.length then block.toNat else headerBuffer.length) =
          headerBuffer.drop (size arg) := by
        split
        · rw [hsize]
        · rw [List.drop_length, List.drop_eq_nil_of_le (by omega)]
      have hrest : prepareArguments fetchedSize params blocks (headerBuffer.drop (size arg)) =
          (prepareAll params blocks).map (prefetch · (headerBuffer.drop (size arg))) :=
        ih fun n hn => h n (hn.trans (by simp))
      simp only [prepareArguments, prepareAll, hprepare, hfetched, Int.toNat_natCast, hdrop, bind,
        Except.bind, gt_iff_lt]
      split
      · rw [hrest]
        cases prepareAll params blocks <;> rfl
      · next hempty =>
        obtain rfl : headerBuffer = [] := List.eq_nil_of_length_eq_zero (by omega)
        rw [List.drop_nil] at hrest
        rw [hrest]
        cases prepareAll params blocks with
        | error => rfl
        | ok args =>
          show Except.ok ((arg, 0) :: prefetch args []) = Except.ok ((arg.write 0 [], 0) :: _)
          rw [write_nil, List.drop_nil]

/-- **The arguments do not depend on how much had been fetched.** -/
theorem prepareArguments_fill {fetchedSize : ℕ → ℤ} {params : List Text}
    {blocks : List (BitVec 32)} {payload : List Byte} {overRead : ℕ}
    (h : ∀ n ≤ overRead, fetchedSize n = n) :
    (prepareArguments fetchedSize params blocks (payload.take overRead)).map
        (fill · (payload.drop overRead)) =
      (prepareAll params blocks).map fun args => fill (whole args) payload := by
  rw [prepareArguments_eq fun n hn => h n (hn.trans (by simp))]
  cases prepareAll params blocks with
  | error e => rfl
  | ok args =>
    show Except.ok (fill (prefetch args _) _) = Except.ok (fill (whole args) payload)
    rw [fill_prefetch, List.take_append_drop]

theorem prepareAll_cons_eq_ok {type : Text} {params : List Text} {block : BitVec 32}
    {blocks : List (BitVec 32)} {args : List ServiceArgument} :
    prepareAll (type :: params) (block :: blocks) = .ok args ↔ ∃ a rest, args = a :: rest ∧
      ServiceArgument.prepare type block.toNat = .ok a ∧ prepareAll params blocks = .ok rest := by
  cases hprepare : ServiceArgument.prepare type block.toNat with
  | error e => simp [prepareAll, hprepare, bind, Except.bind]
  | ok a =>
    cases hrest : prepareAll params blocks with
    | error e => simp [prepareAll, hprepare, hrest, bind, Except.bind]
    | ok rest => simp [prepareAll, hprepare, hrest, bind, Except.bind, pure, Except.pure, eq_comm]

/-- What prepared arguments are like. -/
theorem prepareAll_types_sizes {params : List Text} {blocks : List (BitVec 32)}
    (hlen : blocks.length = params.length) {args : List ServiceArgument}
    (h : prepareAll params blocks = .ok args) :
    args.map (·.kind.type) = params ∧ args.map size = blocks.map BitVec.toNat := by
  induction params generalizing blocks args with
  | nil =>
    obtain rfl := List.eq_nil_of_length_eq_zero hlen
    obtain rfl : [] = args := Except.ok.inj h
    simp
  | cons type params ih =>
    obtain _ | ⟨block, blocks⟩ := blocks
    · simp at hlen
    obtain ⟨a, rest, rfl, ha, hrest⟩ := prepareAll_cons_eq_ok.mp h
    obtain ⟨htypes, hsizes⟩ := ih (Nat.succ.inj hlen) hrest
    obtain ⟨c, hfits, rfl, rfl⟩ := ServiceArgument.prepare_eq_ok_iff.mp ha
    rw [List.map_cons, List.map_cons, List.map_cons, htypes, hsizes]
    simp [ServiceArgument.zeroed]

/-- Arguments of known types and sizes can be prepared. -/
theorem exists_prepareAll {args : List ServiceArgument} {blocks : List (BitVec 32)}
    (h : args.map (·.data.length) = blocks.map BitVec.toNat) :
    ∃ zeros, prepareAll (args.map (·.kind.type)) blocks = .ok zeros ∧
      zeros.map (·.kind) = args.map (·.kind) ∧ zeros.map size = args.map size := by
  induction args generalizing blocks with
  | nil => exact ⟨[], rfl, rfl, rfl⟩
  | cons a args ih =>
    obtain _ | ⟨block, blocks⟩ := blocks
    · simp at h
    obtain ⟨hblock, hblocks⟩ := List.cons_eq_cons.mp h
    obtain ⟨zeros, hzeros, hkinds, hsizes⟩ := ih hblocks
    have hfits : a.kind.Fits block.toNat := hblock ▸ a.fits
    refine ⟨.zeroed a.kind block.toNat hfits :: zeros,
      prepareAll_cons_eq_ok.mpr ⟨_, _, rfl, ServiceArgument.prepare_of_fits hfits, hzeros⟩, ?_, ?_⟩
    · rw [List.map_cons, List.map_cons, hkinds]
      rfl
    · rw [List.map_cons, List.map_cons, hsizes]
      simp [ServiceArgument.zeroed, hblock]

/-- **The arguments are the ones the payload carries.** -/
theorem carries_iff {params : List Text} {blocks : List (BitVec 32)} {payload : List Byte}
    (hlen : blocks.length = params.length) {args : List ServiceArgument} :
    Carries params blocks payload args ↔
      ∃ zeros, prepareAll params blocks = .ok zeros ∧ fill (whole zeros) payload = some args := by
  constructor
  · rintro ⟨rfl, hsizes, hbytes⟩
    obtain ⟨zeros, hzeros, hkinds, hsizes'⟩ := exists_prepareAll hsizes
    exact ⟨zeros, hzeros, fill_whole_iff.mpr ⟨hkinds.symm, hsizes'.symm, hbytes⟩⟩
  · rintro ⟨zeros, hzeros, hfill⟩
    obtain ⟨hkinds, hsizes, hbytes⟩ := fill_whole_iff.mp hfill
    obtain ⟨htypes, hzsizes⟩ := prepareAll_types_sizes hlen hzeros
    have hkinds : args.map (·.kind) = zeros.map (·.kind) := hkinds
    refine ⟨?_, hsizes.trans hzsizes, hbytes⟩
    rw [← htypes]
    simpa [Function.comp_def] using congrArg (List.map ArgumentClass.type) hkinds

/-- They are the ones the payload carries, however much had been fetched. -/
theorem carries_iff_prepareArguments {fetchedSize : ℕ → ℤ} {params : List Text}
    {blocks : List (BitVec 32)} {payload : List Byte} {overRead : ℕ}
    (h : ∀ n ≤ overRead, fetchedSize n = n) (hlen : blocks.length = params.length)
    {args : List ServiceArgument} : Carries params blocks payload args ↔ ∃ payloadBuffers,
      prepareArguments fetchedSize params blocks (payload.take overRead) = .ok payloadBuffers ∧
      fill payloadBuffers (payload.drop overRead) = some args := by
  have heq : (prepareArguments fetchedSize params blocks (payload.take overRead)).map
        (fill · (payload.drop overRead)) =
      (prepareAll params blocks).map fun args => fill (whole args) payload :=
    prepareArguments_fill h
  rw [carries_iff hlen]
  cases hzeros : prepareAll params blocks <;>
    cases hbuffers : prepareArguments fetchedSize params blocks (payload.take overRead) <;>
    simp_all [Except.map]

/-! ### Splitting the payload -/

/-- What the loop and the read after it make of a payload of which the first `overRead` bytes have
been fetched: an exception, a read error (`none`) or the arguments. -/
def receiveArguments (fetchedSize : ℕ → ℤ) (params : List Text) (blocks : List (BitVec 32))
    (payload : List Byte) (overRead : ℕ) : Except Exn (Option (List ServiceArgument)) :=
  (prepareArguments fetchedSize params blocks (payload.take overRead)).map
    (fill · (payload.drop overRead))

/-- Block `i` of the payload: the bytes from `blocks[0] + ... + blocks[i-1]` to
`blocks[0] + ... + blocks[i]`. -/
def blockOf (blocks : List (BitVec 32)) (payload : List Byte) (i : ℕ) : List Byte :=
  (payload.drop ((blocks.map BitVec.toNat).take i).sum).take (blocks.getD i 0).toNat

/-- The blocks are there, one for each argument. -/
structure PayloadSplit (params : List Text) (blocks : List (BitVec 32)) (payload : List Byte)
    (received : Option (List ServiceArgument)) : Prop where
  error_iff : received = none ↔ payload.length < (blocks.map BitVec.toNat).sum
  length_eq : ∀ args, received = some args → args.length = params.length
  data_eq : ∀ args, received = some args → ∀ i (h : i < args.length),
    args[i].kind.type = params.getD i [] ∧ args[i].data = blockOf blocks payload i

/-- Types and sizes that are accepted one by one are accepted together. -/
theorem exists_prepareAll_of_forall₂ {params : List Text} {blocks : List (BitVec 32)}
    (h : List.Forall₂ (fun type block => ∃ arg, ServiceArgument.prepare type (BitVec.toNat block) =
      .ok arg) params blocks) : ∃ args, prepareAll params blocks = .ok args := by
  induction h with
  | nil => exact ⟨[], rfl⟩
  | cons harg _ ih =>
    obtain ⟨arg, harg⟩ := harg
    obtain ⟨args, hargs⟩ := ih
    exact ⟨arg :: args, prepareAll_cons_eq_ok.mpr ⟨arg, args, rfl, harg, hargs⟩⟩

/-- Arguments carried by the payload are its blocks. -/
theorem Carries.data_eq {params : List Text} {blocks : List (BitVec 32)} {payload : List Byte}
    {args : List ServiceArgument} (h : Carries params blocks payload args) {i : ℕ}
    (hi : i < args.length) :
    args[i].kind.type = params.getD i [] ∧ args[i].data = blockOf blocks payload i := by
  obtain ⟨rfl, hsizes, hbytes⟩ := h
  have hlen : (args.map (·.data)).map List.length = blocks.map BitVec.toNat := by
    rw [← hsizes, List.map_map]
    rfl
  have hblock : (blocks.getD i 0).toNat = args[i].data.length := by
    have hget : (blocks.map BitVec.toNat)[i]? = some args[i].data.length := by
      rw [← hsizes, List.getElem?_map, List.getElem?_eq_getElem hi]
      rfl
    rw [List.getElem?_map, Option.map_eq_some_iff] at hget
    obtain ⟨block, hblock, heq⟩ := hget
    rw [List.getD_eq_getElem?_getD, hblock, Option.getD_some, heq]
  refine ⟨by simp [List.getElem?_eq_getElem hi], ?_⟩
  have hpart := getElem_of_flatten_prefix hbytes (i := i) (by simpa using hi)
  rw [hlen] at hpart
  rw [blockOf, hblock]
  simpa using hpart

/-- One loop, for a conversion that keeps the number of bytes fetched. -/
theorem receiveArguments_split {fetchedSize : ℕ → ℤ} {params : List Text}
    {blocks : List (BitVec 32)} {args : List ServiceArgument} {payload : List Byte} {overRead : ℕ}
    (h : ∀ n ≤ overRead, fetchedSize n = n) (hlen : blocks.length = params.length)
    (hargs : prepareAll params blocks = .ok args) :
    receiveArguments fetchedSize params blocks payload overRead = .ok (fill (whole args) payload) ∧
    PayloadSplit params blocks payload (fill (whole args) payload) := by
  have hreceived : receiveArguments fetchedSize params blocks payload overRead =
      (prepareAll params blocks).map fun args => fill (whole args) payload :=
    prepareArguments_fill h
  rw [hargs] at hreceived
  have hcarries : ∀ filled, fill (whole args) payload = some filled →
      Carries params blocks payload filled := fun filled hfilled =>
    (carries_iff hlen).mpr ⟨args, hargs, hfilled⟩
  refine ⟨hreceived, ?_, fun filled hfilled => ?_, fun filled hfilled i hi =>
    (hcarries filled hfilled).data_eq hi⟩
  · rw [fill_whole_eq_none_iff, (prepareAll_types_sizes hlen hargs).2]
  · have htypes := congrArg List.length (hcarries filled hfilled).types
    rwa [List.length_map] at htypes

/-- **Splitting the payload does not depend on how the bytes arrived.** If the types and sizes are
accepted, both loops, whatever they find in the buffer, fill argument `i` with block `i` of the
payload, and fail exactly when the payload ends before the last block. What has been fetched must
be fewer than 2 GiB. -/
theorem payload_splitting {params : List Text} {blocks : List (BitVec 32)}
    (haccepted : List.Forall₂ (fun type block => ∃ arg,
      ServiceArgument.prepare type (BitVec.toNat block) = .ok arg) params blocks)
    (payload : List Byte) : ∃ received, PayloadSplit params blocks payload received ∧
      ∀ overRead < 2 ^ 31,
        receiveArguments sizeT params blocks payload overRead = .ok received ∧
        receiveArguments intT params blocks payload overRead = .ok received := by
  obtain ⟨args, hargs⟩ := exists_prepareAll_of_forall₂ haccepted
  have hlen : blocks.length = params.length := haccepted.length_eq.symm
  have hsizeT : ∀ overRead,
      receiveArguments sizeT params blocks payload overRead = .ok (fill (whole args) payload) ∧
      PayloadSplit params blocks payload (fill (whole args) payload) :=
    fun _ => receiveArguments_split (fun _ _ => rfl) hlen hargs
  refine ⟨_, (hsizeT 0).2, fun overRead hlt => ⟨(hsizeT overRead).1, ?_⟩⟩
  exact (receiveArguments_split (fun n hn => intT_of_lt (by omega)) hlen hargs).1

/-- An integer and a string of two bytes, and one byte too many. -/
theorem payload_splitting_int_string : ∃ received,
    PayloadSplit [txt "int", txt "string"] [4, 2] [0, 0, 0, 7, 104, 105, 1] received ∧
      ∀ overRead < 2 ^ 31,
        receiveArguments sizeT [txt "int", txt "string"] [4, 2] [0, 0, 0, 7, 104, 105, 1] overRead =
          .ok received ∧
        receiveArguments intT [txt "int", txt "string"] [4, 2] [0, 0, 0, 7, 104, 105, 1] overRead =
          .ok received :=
  payload_splitting (.cons ⟨_, ServiceArgument.prepare_of_fits (c := .int) (by decide)⟩
    (.cons ⟨_, ServiceArgument.prepare_of_fits (c := .string) (by decide)⟩ .nil)) _

end Ssoa
