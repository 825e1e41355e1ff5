import Ssoa.FactoryBase
import Ssoa.Lib.Scatter

/-!
# Service arguments

An argument of a service is an object of one of four classes. What travels is the memory its
`getData` points to: the four bytes of an integer in network byte order, the eight bytes of a
`double` as the host has them, the characters of a string or the bytes of a buffer. An integer and
a `double` have memory of fixed size, which is part of the type `ServiceArgument` here, so the
memory of an argument is always one its class can have.

The value of a `double` is its object representation.

## Main results

* `ServiceArgument.value_ofValue` — an argument gives back the value it was made from
* `ServiceArgument.prepare_eq_ok_iff` — the texts and sizes an argument can be prepared from
-/

namespace Ssoa

/-- `boost::lexical_cast<std::string>` of a number that is not negative. -/
def lexicalCast (n : ℕ) : Text := txt (toString n)

/-- The classes derived from `ServiceArgument`. -/
inductive ArgumentClass where
  | int | double | string | buffer
  deriving DecidableEq

namespace ArgumentClass

/-- The static member `type()`. -/
def type : ArgumentClass → Text
  | int => txt "int"
  | double => txt "double"
  | string => txt "string"
  | buffer => txt "buffer"

/-- `sizeof(value)`, where the memory of the object is the value itself. -/
def sizeofValue : ArgumentClass → Option ℕ
  | int => some 4
  | double => some 8
  | string => none
  | buffer => none

/-- An object of the class can have that many bytes. -/
def Fits (c : ArgumentClass) (size : ℕ) : Prop := ∀ n ∈ c.sizeofValue, size = n

instance (c : ArgumentClass) (size : ℕ) : Decidable (c.Fits size) := by
  unfold Fits
  infer_instance

theorem type_injective : Function.Injective type := by
  intro c d h
  cases c <;> cases d <;> first | rfl | exact absurd h (by decide)

end ArgumentClass

/-- A `ServiceArgument`: its class, and the memory `getData` points to. -/
structure ServiceArgument where
  kind : ArgumentClass
  data : List Byte
  fits : kind.Fits data.length
  deriving DecidableEq

/-- `htonl`: the bytes of an `int32_t`, the highest first. -/
def htonl (value : BitVec 32) : List Byte :=
  [24, 16, 8, 0].map fun i => UInt8.ofNat (value.toNat >>> i)

/-- `ntohl` of such bytes. -/
def ntohl (bytes : List Byte) : BitVec 32 :=
  .ofNat 32 (bytes.foldl (fun n b => 256 * n + b.toNat) 0)

theorem ntohl_htonl (value : BitVec 32) : ntohl (htonl value) = value := by
  refine BitVec.eq_of_toNat_eq ?_
  have h := value.isLt
  simp only [ntohl, htonl, List.map_cons, List.map_nil, List.foldl_cons, List.foldl_nil,
    UInt8.toNat_ofNat', BitVec.toNat_ofNat, Nat.shiftRight_eq_div_pow]
  omega

/-- What the four constructors take, and what the four `getValue` return. -/
inductive Value where
  | int (value : BitVec 32)
  | double (value : { bytes : List Byte // bytes.length = 8 })
  | string (value : Text)
  | buffer (value : List Byte)
  deriving DecidableEq

/-- The class a value belongs to. -/
def Value.kind : Value → ArgumentClass
  | .int _ => .int
  | .double _ => .double
  | .string _ => .string
  | .buffer _ => .buffer

namespace ServiceArgument

theorem ext_data {a b : ServiceArgument} (hkind : a.kind = b.kind) (hdata : a.data = b.data) :
    a = b := by
  obtain ⟨_, _, _⟩ := a
  obtain ⟨_, _, _⟩ := b
  obtain rfl : _ = _ := hkind
  obtain rfl : _ = _ := hdata
  rfl

/-- The declared types determine the classes. -/
theorem eq_map_kind {kinds : List ArgumentClass} {args : List ServiceArgument}
    (h : kinds.map ArgumentClass.type = args.map (·.kind.type)) : kinds = args.map (·.kind) := by
  refine List.map_injective_iff.mpr ArgumentClass.type_injective ?_
  rw [h, List.map_map]
  rfl

/-! ### Constructors and values -/

/-- `ServiceIntArgument(int32_t value)`. -/
def ofInt (value : BitVec 32) : ServiceArgument := ⟨.int, htonl value, by rintro n ⟨⟩; rfl⟩

/-- `ServiceDoubleArgument(double value)`. -/
def ofDouble (value : { bytes : List Byte // bytes.length = 8 }) : ServiceArgument :=
  ⟨.double, value.1, by rintro n ⟨⟩; exact value.2⟩

/-- `ServiceStringArgument(std::string value)`. -/
def ofString (value : Text) : ServiceArgument := ⟨.string, value, by rintro n ⟨⟩⟩

/-- `ServiceBufferArgument(std::vector<byte> value)`. -/
def ofBuffer (value : List Byte) : ServiceArgument := ⟨.buffer, value, by rintro n ⟨⟩⟩

/-- The constructor for a value. -/
def ofValue : Value → ServiceArgument
  | .int value => ofInt value
  | .double value => ofDouble value
  | .string value => ofString value
  | .buffer value => ofBuffer value

/-- `getValue()`. -/
def value : ServiceArgument → Value
  | ⟨.int, data, _⟩ => .int (ntohl data)
  | ⟨.double, data, fits⟩ => .double ⟨data, fits 8 rfl⟩
  | ⟨.string, data, _⟩ => .string data
  | ⟨.buffer, data, _⟩ => .buffer data

@[simp] theorem kind_ofValue (v : Value) : (ofValue v).kind = v.kind := by cases v <;> rfl

/-- **An argument gives back the value it was made from.** -/
theorem value_ofValue (v : Value) : (ofValue v).value = v := by
  cases v with
  | int v => exact congrArg Value.int (ntohl_htonl v)
  | double v => rfl
  | string v => rfl
  | buffer v => rfl

/-! ### Memory -/

/-- Copy bytes into the memory of an argument, as far as it reaches. -/
def write (a : ServiceArgument) (i : ℕ) (src : List Byte) : ServiceArgument :=
  ⟨a.kind, Scatter.overwrite a.data i src, by rw [Scatter.length_overwrite]; exact a.fits⟩

instance : Scatter.Region ServiceArgument ArgumentClass Byte where
  shape := kind
  bytes := data
  write := write
  shape_write _ _ _ := rfl
  bytes_write _ _ _ := rfl
  ext := ext_data

@[simp] theorem size_eq (a : ServiceArgument) : Scatter.size a = a.data.length := rfl

/-! ### Preparing an argument to be read -/

/-- What `check_argument_size` throws. -/
def invalidSize (current expected : ℕ) : Exn :=
  .runtime (txt "Invalid argument size (must be " ++ lexicalCast expected ++ txt " instead of " ++
    lexicalCast current ++ txt ").")

def checkArgumentSize (current expected : ℕ) : Except Exn Unit :=
  if current ≠ expected then .error (invalidSize current expected) else .ok ()

/-- `ServiceIntArgument::prepare`. -/
def prepareInt (size : ℕ) : Except Exn ServiceArgument := do
  checkArgumentSize size 4
  return ofInt 0

/-- `ServiceDoubleArgument::prepare`. -/
def prepareDouble (size : ℕ) : Except Exn ServiceArgument := do
  checkArgumentSize size 8
  return ofDouble ⟨List.replicate 8 0, rfl⟩

/-- `ServiceStringArgument::prepare`. -/
def prepareString (size : ℕ) : Except Exn ServiceArgument := .ok (ofString (List.replicate size 0))

/-- `ServiceBufferArgument::prepare`. -/
def prepareBuffer (size : ℕ) : Except Exn ServiceArgument := .ok (ofBuffer (List.replicate size 0))

/-- `ServiceArgumentInstaller`. -/
def installer : Throwing (FactoryBase ℕ ServiceArgument) Exn Unit := do
  FactoryBase.install ArgumentClass.int.type prepareInt
  FactoryBase.install ArgumentClass.double.type prepareDouble
  FactoryBase.install ArgumentClass.string.type prepareString
  FactoryBase.install ArgumentClass.buffer.type prepareBuffer

/-- The factory after `setup()`. -/
def factory : FactoryBase ℕ ServiceArgument :=
  (installer { hierarchyName := txt "ServiceArgument" }).2

def prepare (type : Text) (size : ℕ) : Except Exn ServiceArgument := factory.create type size

theorem lookup_factory (c : ArgumentClass) : factory.mappings.lookup c.type =
    some (match c with
      | .int => prepareInt
      | .double => prepareDouble
      | .string => prepareString
      | .buffer => prepareBuffer) := by
  cases c <;> rfl

/-- A new argument is filled with zeros. -/
def zeroed (c : ArgumentClass) (size : ℕ) (h : c.Fits size) : ServiceArgument :=
  ⟨c, List.replicate size 0, by rwa [List.length_replicate]⟩

theorem prepare_of_fits {c : ArgumentClass} {size : ℕ} (h : c.Fits size) :
    prepare c.type size = .ok (zeroed c size h) := by
  rw [prepare, FactoryBase.create_of_lookup (lookup_factory c)]
  cases c with
  | int =>
    obtain rfl := h 4 rfl
    rfl
  | double =>
    obtain rfl := h 8 rfl
    rfl
  | string => rfl
  | buffer => rfl

theorem prepare_of_not_fits {c : ArgumentClass} {size : ℕ} (h : ¬ c.Fits size) :
    ∃ n, c.sizeofValue = some n ∧ prepare c.type size = .error (invalidSize size n) := by
  rw [prepare, FactoryBase.create_of_lookup (lookup_factory c)]
  cases c with
  | int =>
    have hne : size ≠ 4 := fun heq => h (by rintro n ⟨⟩; exact heq)
    exact ⟨4, rfl, by simp [prepareInt, checkArgumentSize, hne, bind, Except.bind]⟩
  | double =>
    have hne : size ≠ 8 := fun heq => h (by rintro n ⟨⟩; exact heq)
    exact ⟨8, rfl, by simp [prepareDouble, checkArgumentSize, hne, bind, Except.bind]⟩
  | string => exact absurd (by rintro n ⟨⟩) h
  | buffer => exact absurd (by rintro n ⟨⟩) h

theorem prepare_of_unknown {type : Text} (h : ∀ c : ArgumentClass, c.type ≠ type) (size : ℕ) :
    ∃ e, prepare type size = .error e := by
  have hlookup : factory.mappings.lookup type = none := by
    show List.lookup type [(ArgumentClass.buffer.type, prepareBuffer),
      (ArgumentClass.string.type, prepareString), (ArgumentClass.double.type, prepareDouble),
      (ArgumentClass.int.type, prepareInt)] = none
    simp only [List.lookup_eq_none_iff, List.mem_cons, List.not_mem_nil, or_false]
    rintro p (rfl | rfl | rfl | rfl) <;> simpa using (h _).symm
  exact ⟨_, by rw [prepare, FactoryBase.create, hlookup]⟩

/-- **The texts and sizes an argument can be prepared from.** -/
theorem prepare_eq_ok_iff {type : Text} {size : ℕ} {a : ServiceArgument} :
    prepare type size = .ok a ↔ ∃ c h, type = c.type ∧ a = zeroed c size h := by
  constructor
  · intro heq
    by_cases hex : ∃ c : ArgumentClass, c.type = type
    · obtain ⟨c, rfl⟩ := hex
      by_cases h : c.Fits size
      · rw [prepare_of_fits h] at heq
        exact ⟨c, h, rfl, (Except.ok.inj heq).symm⟩
      · obtain ⟨n, -, herror⟩ := prepare_of_not_fits h
        rw [herror] at heq
        exact absurd heq (by simp)
    · obtain ⟨e, herror⟩ := prepare_of_unknown (fun c hc => hex ⟨c, hc⟩) size
      rw [herror] at heq
      exact absurd heq (by simp)
  · rintro ⟨c, h, rfl, rfl⟩
    exact prepare_of_fits h

end ServiceArgument

end Ssoa
