import Ssoa.Base
import Mathlib.Data.Countable.Basic
import Mathlib.Data.List.TakeWhile
import Mathlib.Logic.Equiv.List
import Mathlib.Tactic.DeriveCountable
import Mathlib.Tactic.Common

/-!
# The YAML library

Messages and headers are written and read by yaml-cpp, which is not part of this repository. Its
interface, as far as the code uses it, is the structure `YamlLibrary`: a node is whatever the
library makes it, and the fields are what the code asks of a node. The code emits nothing but flat
maps of texts, booleans and integer sequences, and relies on one thing only: an emitted map reads
back, key by key (`YamlCpp.load_emit`).

Nothing is said of texts that were not emitted here. What the library makes of those, and when it
throws, is arbitrary.

The emitted text is handled as a C string throughout (`e.c_str()`, a final NUL on the wire), so
`load_emit` is about the text up to its first NUL.

## Main results

* `YamlReader.IsMap.textAt`, `YamlReader.IsMap.boolAt`, `YamlReader.IsMap.ints` — reading an
  emitted map
* `YamlCpp.ofTexts` — a library whose emitter writes given documents the way yaml-cpp does
-/

namespace Ssoa

/-- A value the code emits. -/
inductive Emitted where
  | text (t : Text)
  | bool (b : Bool)
  | ints (zs : List (BitVec 32))
  deriving DecidableEq

/-- A map the code emits. -/
abbrev Document := List (Text × Emitted)

/-- What the code asks of yaml-cpp to read a text. -/
structure YamlReader where
  /-- A `YAML::Node`. -/
  Node : Type
  /-- `parser.GetNextDocument(node)` on a text. -/
  load : Text → Except Exn Node
  /-- `node.FindValue(key)`; `none` is the null pointer. -/
  find : Node → Text → Option Node
  /-- `node[key]`, which throws when there is no such key. -/
  get : Node → Text → Except Exn Node
  /-- `node.size()`. -/
  size : Node → ℕ
  /-- `node[i]`. -/
  item : Node → ℕ → Except Exn Node
  /-- `node.to<string>()`. -/
  toText : Node → Except Exn Text
  /-- `node.to<bool>()`. -/
  toBool : Node → Except Exn Bool
  /-- `node >> i` for an `int`. -/
  toInt : Node → Except Exn (BitVec 32)

/-- The node reads as the value. -/
def YamlReader.Holds (y : YamlReader) (node : y.Node) : Emitted → Prop
  | .text t => y.toText node = .ok t
  | .bool b => y.toBool node = .ok b
  | .ints zs => y.size node = zs.length ∧
    ∀ i (h : i < zs.length), ∃ n, y.item node i = .ok n ∧ y.toInt n = .ok zs[i]

/-- The node is a map with these fields and no others. -/
def YamlReader.IsMap (y : YamlReader) (node : y.Node) (fields : Document) : Prop :=
  ∀ key, match fields.lookup key with
    | none => y.find node key = none ∧ ∃ e, y.get node key = .error e
    | some value => ∃ child, y.find node key = some child ∧ y.get node key = .ok child ∧
      y.Holds child value

/-- What the code asks of yaml-cpp altogether. -/
structure YamlLibrary extends YamlReader where
  /-- The text of a `YAML::Emitter` after a flat map. -/
  emit : Document → Text

/-- The library: it reads back what it emits. -/
structure YamlCpp extends YamlLibrary where
  load_emit : ∀ fields : Document, (fields.map Prod.fst).Nodup →
    ∃ node, load (cstr (emit fields)) = .ok node ∧ toYamlReader.IsMap node fields

/-- `e.c_str()` of the emitter. -/
def YamlLibrary.emitted (y : YamlLibrary) (fields : Document) : Text := cstr (y.emit fields)

theorem YamlLibrary.zero_not_mem_emitted (y : YamlLibrary) (fields : Document) :
    0 ∉ y.emitted fields :=
  zero_not_mem_cstr _

theorem YamlCpp.load_emitted (y : YamlCpp) {fields : Document} (h : (fields.map Prod.fst).Nodup) :
    ∃ node, y.load (y.emitted fields) = .ok node ∧ y.IsMap node fields :=
  y.load_emit fields h

namespace YamlReader

/-- `node[key].to<string>()`. -/
def textAt (y : YamlReader) (node : y.Node) (key : Text) : Except Exn Text :=
  y.get node key >>= y.toText

/-- `node[key].to<bool>()`. -/
def boolAt (y : YamlReader) (node : y.Node) (key : Text) : Except Exn Bool :=
  y.get node key >>= y.toBool

variable {y : YamlReader} {node : y.Node} {fields : Document}

theorem IsMap.textAt (h : y.IsMap node fields) (key : Text) {t : Text}
    (hkey : fields.lookup key = some (.text t)) :
    y.textAt node key = .ok t := by
  have := h key
  rw [hkey] at this
  obtain ⟨child, -, hget, htext⟩ := this
  rw [YamlReader.textAt, hget]
  exact htext

theorem IsMap.boolAt (h : y.IsMap node fields) (key : Text) {b : Bool}
    (hkey : fields.lookup key = some (.bool b)) :
    y.boolAt node key = .ok b := by
  have := h key
  rw [hkey] at this
  obtain ⟨child, -, hget, hbool⟩ := this
  rw [YamlReader.boolAt, hget]
  exact hbool

theorem IsMap.find (h : y.IsMap node fields) (key : Text) {v : Emitted}
    (hkey : fields.lookup key = some v) :
    ∃ child, y.find node key = some child ∧ y.get node key = .ok child := by
  have := h key
  rw [hkey] at this
  obtain ⟨child, hfind, hget, -⟩ := this
  exact ⟨child, hfind, hget⟩

theorem IsMap.find_none (h : y.IsMap node fields) (key : Text) (hkey : fields.lookup key = none) :
    y.find node key = none := by
  have := h key
  rw [hkey] at this
  exact this.1

theorem IsMap.textAt_error (h : y.IsMap node fields) (key : Text)
    (hkey : fields.lookup key = none) :
    ∃ e, y.textAt node key = .error e := by
  have := h key
  rw [hkey] at this
  obtain ⟨-, e, he⟩ := this
  exact ⟨e, by simp [YamlReader.textAt, he, bind, Except.bind]⟩

theorem IsMap.ints (h : y.IsMap node fields) (key : Text) {zs : List (BitVec 32)}
    (hkey : fields.lookup key = some (.ints zs)) :
    ∃ child, y.get node key = .ok child ∧ y.size child = zs.length ∧
      ∀ i (h : i < zs.length), ∃ n, y.item child i = .ok n ∧ y.toInt n = .ok zs[i] := by
  have := h key
  rw [hkey] at this
  obtain ⟨child, -, hget, hints⟩ := this
  exact ⟨child, hget, hints⟩

end YamlReader

/-! ### A library -/

namespace YamlCpp

/-- A node of the library below. -/
inductive SampleNode where
  | map (fields : Document)
  | value (v : Emitted)
  | int (z : BitVec 32)

/-- Any injective emitter without NULs makes a library: reading is its inverse. -/
noncomputable def ofEmitter (emit : Document → Text) (hinj : emit.Injective)
    (hnul : ∀ fields, cstr (emit fields) = emit fields) : YamlCpp where
  Node := SampleNode
  load t := by
    classical exact if h : ∃ fields, emit fields = t then .ok (.map h.choose)
      else .error (.runtime (txt "yaml-cpp: error"))
  find
    | .map fields, key => (fields.lookup key).map .value
    | _, _ => none
  get
    | .map fields, key => ((fields.lookup key).map fun v => Except.ok (.value v)).getD
        (.error (.runtime (txt "yaml-cpp: error: key not found")))
    | _, _ => .error (.runtime (txt "yaml-cpp: error: bad dereference"))
  size
    | .map fields => fields.length
    | .value (.ints zs) => zs.length
    | _ => 0
  item
    | .value (.ints zs), i => (zs[i]?.map fun z => Except.ok (.int z)).getD
        (.error (.runtime (txt "yaml-cpp: error: key not found")))
    | _, _ => .error (.runtime (txt "yaml-cpp: error: bad dereference"))
  toText
    | .value (.text t) => .ok t
    | _ => .error (.runtime (txt "yaml-cpp: error: invalid scalar"))
  toBool
    | .value (.bool b) => .ok b
    | _ => .error (.runtime (txt "yaml-cpp: error: invalid scalar"))
  toInt
    | .int z => .ok z
    | _ => .error (.runtime (txt "yaml-cpp: error: invalid scalar"))
  emit := emit
  load_emit fields _ := by
    have hex : ∃ fields', emit fields' = cstr (emit fields) := ⟨fields, (hnul fields).symm⟩
    have hchoose : hex.choose = fields := hinj (hex.choose_spec.trans (hnul fields))
    refine ⟨.map fields, by rw [dif_pos hex, hchoose], fun key => ?_⟩
    cases hkey : fields.lookup key with
    | none => exact ⟨by simp [hkey], _, by simp [hkey]; rfl⟩
    | some v =>
      refine ⟨.value v, by simp [hkey], by simp [hkey], ?_⟩
      cases v with
      | text t => rfl
      | bool b => rfl
      | ints zs => exact ⟨rfl, fun i h => ⟨.int zs[i], by simp [h], rfl⟩⟩

/-- A decimal number. -/
def decimal (z : BitVec 32) : Text := txt (toString z.toInt)

/-- A scalar, in quotes unless it begins like a word. -/
def scalarText (t : Text) : Text :=
  if t.head?.any isWord then t else txt "\"" ++ t ++ txt "\""

/-- One field of a block map, the way yaml-cpp writes it. -/
def fieldText : Text × Emitted → Text
  | (key, .text t) => key ++ txt ": " ++ scalarText t
  | (key, .bool b) => key ++ txt ": " ++ (if b then txt "true" else txt "false")
  | (key, .ints []) => key ++ txt ":\n  []"
  | (key, .ints (z :: zs)) => key ++ txt ":" ++ (z :: zs).flatMap fun z => txt "\n  - " ++ decimal z

/-- A block map. -/
def documentText (fields : Document) : Text :=
  (txt "\n").intercalate (fields.map fieldText)

/-- No NUL in the text, and it does not begin with a control character. -/
def IsPlain (t : Text) : Prop := 0 ∉ t ∧ t.head? ≠ some 1

instance (t : Text) : Decidable (IsPlain t) := inferInstanceAs (Decidable (_ ∧ _))

instance : Countable Byte := Function.Injective.countable fun _ _ => UInt8.toNat_inj.mp

instance : Countable (BitVec 32) := Function.Injective.countable fun _ _ => BitVec.eq_of_toNat_eq

deriving instance Countable for Emitted

/-- A number for every document. -/
theorem exists_code : ∃ code : Document → ℕ, code.Injective :=
  Countable.exists_injective_nat Document

/-- Write the given documents as block maps, and all others in a code of no interest. -/
noncomputable def sampleEmit (docs : List Document) (fields : Document) : Text :=
  if fields ∈ docs then documentText fields
  else List.replicate (exists_code.choose fields + 1) 1

theorem sampleEmit_injective {docs : List Document} (hnodup : (docs.map documentText).Nodup)
    (hplain : ∀ d ∈ docs, IsPlain (documentText d)) : (sampleEmit docs).Injective := by
  have hne : ∀ {d : Document} {n : ℕ}, d ∈ docs → documentText d ≠ List.replicate (n + 1) 1 := by
    intro d n hd heq
    exact (hplain d hd).2 (by simp [heq, List.replicate_succ])
  intro d d' heq
  simp only [sampleEmit] at heq
  split at heq <;> split at heq
  · next hd hd' => exact List.inj_on_of_nodup_map hnodup hd hd' heq
  · next hd _ => exact absurd heq (hne hd)
  · next hd' => exact absurd heq.symm (hne hd')
  · exact exists_code.choose_spec (by simpa using heq)

theorem cstr_sampleEmit {docs : List Document} (hplain : ∀ d ∈ docs, IsPlain (documentText d))
    (fields : Document) : cstr (sampleEmit docs fields) = sampleEmit docs fields := by
  refine List.takeWhile_eq_self_iff.mpr fun b hb => ?_
  simp only [sampleEmit] at hb
  split at hb
  · next hd =>
    simp only [ne_eq, decide_not, Bool.not_eq_true', decide_eq_false_iff_not]
    rintro rfl
    exact (hplain _ hd).1 hb
  · simp [List.eq_of_mem_replicate hb]

/-- A library that writes the given documents as block maps. -/
noncomputable def ofTexts (docs : List Document) (hnodup : (docs.map documentText).Nodup)
    (hplain : ∀ d ∈ docs, IsPlain (documentText d)) : YamlCpp :=
  ofEmitter (sampleEmit docs) (sampleEmit_injective hnodup hplain) (cstr_sampleEmit hplain)

end YamlCpp

end Ssoa
