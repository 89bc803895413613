import JvmDebug.Wire.Packet
import Mathlib.Algebra.GroupWithZero.Nat

/-!
What is written on the wire is read back: the parts of a body, however they are put together and
whatever follows them, and the packets of a stream one after the other.
-/
namespace JvmDebug.Wire

/-! ## Numbers -/

theorem length_bigEndian (width n : Nat) : (bigEndian width n).length = width := by
  induction width generalizing n with
  | zero => rfl
  | succ width ih => rw [bigEndian, List.length_append, ih, List.length_singleton]

theorem bigEndianValue_append_byte (bytes : Bytes) (b : UInt8) :
    bigEndianValue (bytes ++ [b]) = bigEndianValue bytes * 256 + b.toNat :=
  List.foldl_append

theorem bigEndianValue_bigEndian {width n : Nat} (h : n < 256 ^ width) :
    bigEndianValue (bigEndian width n) = n := by
  induction width generalizing n with
  | zero =>
    rw [Nat.pow_zero, Nat.lt_one_iff] at h
    rw [h]
    rfl
  | succ width ih =>
    have hhigh : n / 256 < 256 ^ width := by
      rw [Nat.div_lt_iff_lt_mul (by decide)]
      rwa [Nat.pow_succ] at h
    rw [bigEndian, bigEndianValue_append_byte, ih hhigh, UInt8.toNat_ofNat']
    omega

/-! ## Readers -/

/-- In front of any bytes the reader takes exactly these ones, and they mean `a`. -/
def Reads {α : Type} (get : Reader α) (bytes : Bytes) (a : α) : Prop :=
  ∀ rest offset, get ⟨bytes ++ rest, offset⟩ = .ok (a, ⟨rest, offset + bytes.length⟩)

section
variable {α β : Type} {get : Reader α} {bytes more : Bytes} {a : α} {b : β}

theorem reads_pure (a : α) : Reads (pure a) [] a := fun _ _ => rfl

theorem Reads.bind {next : α → Reader β} (h : Reads get bytes a) (hnext : Reads (next a) more b) :
    Reads (get >>= next) (bytes ++ more) b := by
  intro rest offset
  have hbind : (get >>= next) ⟨bytes ++ more ++ rest, offset⟩ =
      next a ⟨more ++ rest, offset + bytes.length⟩ := by
    show Except.bind (get _) _ = _
    rw [List.append_assoc, h]
    rfl
  rw [hbind, hnext, List.length_append, Nat.add_assoc]

/-- What is made of the bytes that were read may take no more of them. -/
theorem Reads.bind_nil {next : α → Reader β} (h : Reads get bytes a)
    (hnext : Reads (next a) [] b) : Reads (get >>= next) bytes b := by
  have := h.bind hnext
  rwa [List.append_nil] at this

theorem Reads.map (h : Reads get bytes a) (f : α → β) :
    Reads (do return f (← get)) bytes (f a) :=
  h.bind_nil (reads_pure (f a))

theorem reads_take (bytes : Bytes) : Reads (take bytes.length) bytes bytes := by
  intro rest offset
  simp only [take, List.take_left, List.drop_left, if_true]

theorem reads_nat {w n : Nat} (h : n < 256 ^ w) :
    Reads (getNat w) (bigEndian w n) n := by
  have htake := reads_take (bigEndian w n)
  rw [length_bigEndian] at htake
  have := htake.map bigEndianValue
  rwa [bigEndianValue_bigEndian h] at this

theorem reads_u8 (n : UInt8) : Reads getU8 [n] n := by
  have h := (reads_nat (w := 1) n.toNat_lt).map UInt8.ofNat
  rwa [UInt8.ofNat_toNat, show bigEndian 1 n.toNat = [n] by simp [bigEndian]] at h

theorem reads_u16 (n : UInt16) : Reads getU16 (putU16 n) n := by
  have h := (reads_nat (w := 2) n.toNat_lt).map UInt16.ofNat
  rwa [UInt16.ofNat_toNat] at h

theorem reads_u32 (n : UInt32) : Reads getU32 (putU32 n) n := by
  have h := (reads_nat (w := 4) n.toNat_lt).map UInt32.ofNat
  rwa [UInt32.ofNat_toNat] at h

theorem reads_u64 (n : UInt64) : Reads getU64 (putU64 n) n := by
  have h := (reads_nat (w := 8) n.toNat_lt).map UInt64.ofNat
  rwa [UInt64.ofNat_toNat] at h

theorem reads_i32 (n : Int32) : Reads getI32 (putI32 n) n := (reads_u32 n.toUInt32).map _

theorem reads_bool (flag : Bool) : Reads getBool (putBool flag) flag := by
  have h := (reads_u8 (if flag then 1 else 0)).map (· != 0)
  cases flag <;> exact h

theorem reads_text {s : String} (h : (Text.Utf8.encode s).length < 2 ^ 32) :
    Reads getText (putText s) s := by
  refine (reads_nat (w := 4) h).bind ?_
  refine (reads_take (Text.Utf8.encode s)).bind_nil ?_
  rw [Text.Utf8.decode_encode]
  exact reads_pure s

theorem reads_id {width : Nat} {n : UInt64} (hwidth : 1 ≤ width ∧ width ≤ 8)
    (hn : n.toNat < 256 ^ width) : Reads (getId width) (putId width n) n := by
  rw [getId, if_pos hwidth, putId, Nat.min_eq_left hwidth.2]
  have h := (reads_nat hn).map UInt64.ofNat
  rwa [UInt64.ofNat_toNat] at h

theorem reads_times {put : α → Bytes} {items : List α} (h : ∀ a ∈ items, Reads get (put a) a) :
    Reads (getTimes get items.length) (items.flatMap put) items := by
  induction items with
  | nil => exact reads_pure []
  | cons a items ih =>
    have hrest := ih fun b hb => h b (List.mem_cons_of_mem a hb)
    exact (h a List.mem_cons_self).bind (hrest.map (a :: ·))

theorem reads_list {put : α → Bytes} {items : List α} (hlength : items.length < 2 ^ 32)
    (h : ∀ a ∈ items, Reads get (put a) a) : Reads (getList get) (putList put items) items :=
  (reads_nat (w := 4) hlength).bind (reads_times h)

end

/-! ## Parts of a body -/

/-- What an id is the id of. The other side chooses a width for each kind. -/
inductive IdKind
  | field | method | object | type | frame
  deriving DecidableEq, Repr

/-- What a body is made of. -/
inductive Part
  | u8 | u16 | u32 | u64 | i32 | i64 | bool | text
  | id (kind : IdKind)
  | location
  /-- A value behind its tag. -/
  | value
  /-- A value whose tag the reader knows. -/
  | untagged (tag : UInt8)
  | tagged
  | list (item : Part)
  | both (first second : Part)
  deriving DecidableEq, Repr

namespace Part

abbrev Data : Part → Type
  | u8 => UInt8
  | u16 => UInt16
  | u32 => UInt32
  | u64 => UInt64
  | i32 => Int32
  | i64 => Int64
  | bool => Bool
  | text => String
  | id _ => UInt64
  | location => Location
  | value | untagged _ => WireValue
  | tagged => Tagged
  | list item => List item.Data
  | both first second => first.Data × second.Data

end Part

namespace IdSizes
variable (sizes : IdSizes)

def width : IdKind → Nat
  | .field => sizes.field
  | .method => sizes.method
  | .object => sizes.object
  | .type => sizes.type
  | .frame => sizes.frame

/-- The widths that a reader accepts. -/
def Supported : Prop := ∀ kind, 1 ≤ sizes.width kind ∧ sizes.width kind ≤ 8

def write : (p : Part) → p.Data → Bytes
  | .u8, n => [n]
  | .u16, n => putU16 n
  | .u32, n => putU32 n
  | .u64, n => putU64 n
  | .i32, n => putI32 n
  | .i64, n => putU64 (Int64.toUInt64 n)
  | .bool, flag => putBool flag
  | .text, s => putText s
  | .id kind, n => putId (sizes.width kind) n
  | .location, l => sizes.putLocation l
  | .value, v => sizes.putValue v
  | .untagged _, v => sizes.putUntagged v
  | .tagged, o => Tagged.tag o :: putId sizes.object (Tagged.id o)
  | .list item, l => putList (write item) l
  | .both first second, (a, b) => write first a ++ write second b

def read : (p : Part) → Reader p.Data
  | .u8 => getU8
  | .u16 => getU16
  | .u32 => getU32
  | .u64 => getU64
  | .i32 => getI32
  | .i64 => do return (← getU64).toInt64
  | .bool => getBool
  | .text => getText
  | .id kind => getId (sizes.width kind)
  | .location => sizes.getLocation
  | .value => sizes.getValue
  | .untagged tag => sizes.getUntagged tag
  | .tagged => sizes.getTagged
  | .list item => getList (read item)
  | .both first second => do
    let a ← read first
    let b ← read second
    return (a, b)

/-- The id fits into its width. -/
def FitsId (kind : IdKind) (n : UInt64) : Prop := n.toNat < 256 ^ sizes.width kind

/-- An object has a tag that means no primitive and not `void`, and an id that fits. -/
def FitsValue : WireValue → Prop
  | .object tag id =>
    WireValue.isPrimitiveTag tag = false ∧ tag ≠ charByte 'V' ∧ sizes.FitsId .object id
  | _ => True

/-- What can be told on the wire: ids fit their widths, and lengths fit 32 bits. -/
def Fits : (p : Part) → p.Data → Prop
  | .text, s => (Text.Utf8.encode s).length < 2 ^ 32
  | .id kind, n => sizes.FitsId kind n
  | .location, l =>
    sizes.FitsId .type (Location.classId l) ∧ sizes.FitsId .method (Location.methodId l)
  | .value, v => sizes.FitsValue v
  | .untagged tag, v => WireValue.tag v = tag ∧ sizes.FitsValue v
  | .tagged, o => sizes.FitsId .object (Tagged.id o)
  | .list item, l => List.length l < 2 ^ 32 ∧ ∀ a ∈ l, Fits item a
  | .both first second, (a, b) => Fits first a ∧ Fits second b
  | _, _ => True

instance (kind : IdKind) (n : UInt64) : Decidable (sizes.FitsId kind n) :=
  inferInstanceAs (Decidable (_ < _))

instance decidableFitsValue : (v : WireValue) → Decidable (sizes.FitsValue v)
  | .object .. => inferInstanceAs (Decidable (_ ∧ _ ∧ _))
  | .void | .boolean _ | .byte _ | .char _ | .short _ | .int _ | .long _ | .float _ | .double _ =>
    isTrue trivial

instance decidableFits : (p : Part) → (a : p.Data) → Decidable (sizes.Fits p a)
  | .text, _ => inferInstanceAs (Decidable (_ < _))
  | .id kind, n => inferInstanceAs (Decidable (sizes.FitsId kind n))
  | .location, _ => inferInstanceAs (Decidable (_ ∧ _))
  | .value, v => inferInstanceAs (Decidable (sizes.FitsValue v))
  | .untagged _, _ => inferInstanceAs (Decidable (_ ∧ sizes.FitsValue _))
  | .tagged, _ => inferInstanceAs (Decidable (sizes.FitsId _ _))
  | .list item, l =>
    have := decidableFits item
    inferInstanceAs (Decidable (_ ∧ ∀ a ∈ l, sizes.Fits item a))
  | .both first second, (a, b) =>
    have := decidableFits first a
    have := decidableFits second b
    inferInstanceAs (Decidable (_ ∧ _))
  | .u8, _ | .u16, _ | .u32, _ | .u64, _ | .i32, _ | .i64, _ | .bool, _ => isTrue trivial

variable {sizes}

theorem reads_idOf (hsizes : sizes.Supported) {kind : IdKind} {n : UInt64}
    (hn : sizes.FitsId kind n) :
    Reads (getId (sizes.width kind)) (putId (sizes.width kind) n) n :=
  reads_id (hsizes kind) hn

theorem reads_location (hsizes : sizes.Supported) {l : Location}
    (htype : sizes.FitsId .type l.classId) (hmethod : sizes.FitsId .method l.methodId) :
    Reads sizes.getLocation (sizes.putLocation l) l := by
  rw [putLocation, List.append_assoc, ← List.singleton_append]
  refine (reads_u8 l.typeTag).bind ?_
  refine (reads_idOf hsizes htype).bind ?_
  refine (reads_idOf hsizes hmethod).bind ?_
  exact (reads_u64 l.index).map (Location.mk l.typeTag l.classId l.methodId)

theorem reads_tagged (hsizes : sizes.Supported) {o : Tagged} (ho : sizes.FitsId .object o.id) :
    Reads sizes.getTagged (o.tag :: putId sizes.object o.id) o := by
  rw [← List.singleton_append]
  refine (reads_u8 o.tag).bind ?_
  exact (reads_idOf hsizes ho).map (Tagged.mk o.tag)

theorem getUntagged_object {tag : UInt8} (hprimitive : WireValue.isPrimitiveTag tag = false)
    (hvoid : tag ≠ charByte 'V') :
    sizes.getUntagged tag = do return .object tag (← getId sizes.object) := by
  have hne {c : Char} (hc : c ∈ ['Z', 'B', 'C', 'S', 'I', 'J', 'F', 'D']) : tag ≠ charByte c := by
    rintro rfl
    have := List.any_eq_false.1 hprimitive c hc
    simp at this
  rw [getUntagged, if_neg (hne (by decide)), if_neg (hne (by decide)), if_neg (hne (by decide)),
    if_neg (hne (by decide)), if_neg (hne (by decide)), if_neg (hne (by decide)),
    if_neg (hne (by decide)), if_neg (hne (by decide)), if_neg hvoid]

theorem reads_untagged (hsizes : sizes.Supported) {v : WireValue} (hv : sizes.FitsValue v) :
    Reads (sizes.getUntagged v.tag) (sizes.putUntagged v) v := by
  cases v with
  | void => exact reads_pure _
  | boolean flag => exact (reads_bool flag).map WireValue.boolean
  | byte n => exact (reads_u8 n.toUInt8).map fun n => WireValue.byte n.toInt8
  | char n => exact (reads_u16 n).map WireValue.char
  | short n => exact (reads_u16 n.toUInt16).map fun n => WireValue.short n.toInt16
  | int n => exact (reads_i32 n).map WireValue.int
  | long n => exact (reads_u64 n.toUInt64).map fun n => WireValue.long n.toInt64
  | float bits => exact (reads_u32 bits).map WireValue.float
  | double bits => exact (reads_u64 bits).map WireValue.double
  | object tag id =>
    obtain ⟨hprimitive, hvoid, hid⟩ := hv
    rw [WireValue.tag, getUntagged_object hprimitive hvoid]
    exact (reads_idOf hsizes hid).map (WireValue.object tag)

theorem reads_value (hsizes : sizes.Supported) {v : WireValue} (hv : sizes.FitsValue v) :
    Reads sizes.getValue (sizes.putValue v) v := by
  rw [putValue, ← List.singleton_append]
  exact (reads_u8 v.tag).bind (reads_untagged hsizes hv)

theorem reads_written (hsizes : sizes.Supported) {p : Part} {a : p.Data} (ha : sizes.Fits p a) :
    Reads (sizes.read p) (sizes.write p a) a := by
  induction p with
  | u8 => exact reads_u8 a
  | u16 => exact reads_u16 a
  | u32 => exact reads_u32 a
  | u64 => exact reads_u64 a
  | i32 => exact reads_i32 a
  | i64 => exact (reads_u64 (Int64.toUInt64 a)).map UInt64.toInt64
  | bool => exact reads_bool a
  | text => exact reads_text ha
  | id kind => exact reads_idOf hsizes ha
  | location => exact reads_location hsizes ha.1 ha.2
  | value => exact reads_value hsizes ha
  | untagged tag => exact ha.1 ▸ reads_untagged hsizes ha.2
  | tagged => exact reads_tagged hsizes ha
  | list item ih => exact reads_list ha.1 fun b hb => ih (ha.2 b hb)
  | both first second ihfirst ihsecond =>
    refine (ihfirst ha.1).bind ?_
    exact (ihsecond ha.2).map (Prod.mk a.1)

end IdSizes

/-! ## Packets -/

namespace Packet

/-- The last two bytes of the header. -/
def trailer : Packet → Bytes
  | command _ set number _ => [set, number]
  | reply _ error _ => putU16 error

def header (p : Packet) : Bytes :=
  bigEndian 4 (headerLength + p.body.length) ++ (putU32 p.id ++ p.flags :: p.trailer)

variable (p : Packet)

theorem encode_eq : p.encode = p.header ++ p.body := by
  cases p <;> rfl

theorem length_header : p.header.length = headerLength := by
  cases p <;> rfl

theorem length_encode : p.encode.length = headerLength + p.body.length := by
  rw [encode_eq, List.length_append, length_header]

theorem header_length : p.header.take 4 = bigEndian 4 (headerLength + p.body.length) := rfl

theorem header_id : (p.header.drop 4).take 4 = bigEndian 4 p.id.toNat := rfl

theorem header_flags : p.header[8]? = some p.flags := rfl

theorem header_trailer : p.header.drop 9 = p.trailer := rfl

variable {p}

theorem scan_encode (h : p.body.length < 2 ^ 32 - headerLength) (rest : Bytes) :
    scan (p.encode ++ rest) = .packet p rest := by
  have hlength : headerLength + p.body.length < 256 ^ 4 := by
    have : headerLength = 11 := rfl
    omega
  have hstream : p.encode ++ rest = p.header ++ (p.body ++ rest) := by
    rw [encode_eq, List.append_assoc]
  have hheader : (p.encode ++ rest).take headerLength = p.header := by
    rw [hstream, ← length_header p, List.take_left]
  have hbody : (p.encode ++ rest).drop headerLength = p.body ++ rest := by
    rw [hstream, ← length_header p, List.drop_left]
  have hrest : (p.encode ++ rest).drop (headerLength + p.body.length) = rest := by
    rw [← length_encode, List.drop_left]
  have hid : UInt32.ofNat (bigEndianValue (bigEndian 4 p.id.toNat)) = p.id := by
    rw [bigEndianValue_bigEndian p.id.toNat_lt, UInt32.ofNat_toNat]
  have hlong : ¬headerLength + p.body.length < headerLength := by omega
  simp only [scan, hheader, hbody, length_header, header_length, header_id, header_flags,
    header_trailer, bigEndianValue_bigEndian hlength, hrest, hid, Nat.add_sub_cancel_left,
    List.take_left, Nat.lt_irrefl, if_false, hlong, Option.getD_some]
  cases p with
  | command id set number body =>
    exact if_neg (by decide : ¬((0 : UInt8) &&& replyFlag != 0) = true)
  | reply id error body =>
    have herror : UInt16.ofNat (bigEndianValue (putU16 error)) = error := by
      rw [putU16, bigEndianValue_bigEndian error.toNat_lt, UInt16.ofNat_toNat]
    rw [trailer, herror]
    exact if_pos (by decide : (replyFlag &&& replyFlag != 0) = true)

/-- What a stream begins with: a number of packets, and what comes after them. -/
def scanMany : (count : Nat) → Bytes → Option (List Packet × Bytes)
  | 0, stream => some ([], stream)
  | count + 1, stream =>
    match scan stream with
    | .packet p rest => (scanMany count rest).map fun (ps, rest) => (p :: ps, rest)
    | _ => none

theorem scanMany_encode {packets : List Packet}
    (h : ∀ p ∈ packets, p.body.length < 2 ^ 32 - headerLength) (rest : Bytes) :
    scanMany packets.length (packets.flatMap encode ++ rest) = some (packets, rest) := by
  induction packets with
  | nil => rfl
  | cons p packets ih =>
    have hfirst := scan_encode (h p List.mem_cons_self) (packets.flatMap encode ++ rest)
    have hothers := ih fun q hq => h q (List.mem_cons_of_mem p hq)
    rw [List.flatMap_cons, List.append_assoc, List.length_cons, scanMany, hfirst]
    simp only [hothers, Option.map_some]

end Packet

/-! ## Reading undoes writing -/

/-- Whatever fits the widths of the ids and the lengths is read back from what was written for it,
in front of any bytes and up to exactly these; and as many packets are read from a stream as were
written to it, with their ids, commands or error codes, and bodies. -/
theorem reading_undoes_writing {sizes : IdSizes} (hsizes : sizes.Supported) :
    (∀ (p : Part) (a : p.Data), sizes.Fits p a → Reads (sizes.read p) (sizes.write p a) a) ∧
      ∀ (packets : List Packet) (rest : Bytes),
        (∀ p ∈ packets, p.body.length < 2 ^ 32 - headerLength) →
        Packet.scanMany packets.length (packets.flatMap Packet.encode ++ rest) =
          some (packets, rest) :=
  ⟨fun _ _ ha => IdSizes.reads_written hsizes ha, fun _ rest h => Packet.scanMany_encode h rest⟩

def narrowSizes : IdSizes := { field := 1, method := 3, object := 4, type := 8, frame := 5 }

theorem reading_undoes_writing_narrow_ids :
    narrowSizes.Supported ∧
      narrowSizes.Fits (.both (.list .value) .text)
        ([.object (charByte 't') 0xfffffffe, .float 0x7fc00001, .void, .long (-2)], "grüß dich") ∧
      Reads (narrowSizes.read (.both (.list .value) .text))
        (narrowSizes.write (.both (.list .value) .text)
          ([.object (charByte 't') 0xfffffffe, .float 0x7fc00001, .void, .long (-2)], "grüß dich"))
        ([.object (charByte 't') 0xfffffffe, .float 0x7fc00001, .void, .long (-2)], "grüß dich") ∧
      Packet.scanMany 2
        ([Packet.command 7 64 100 [1, 2], .reply 8 502 []].flatMap Packet.encode ++ [0, 0]) =
          some ([.command 7 64 100 [1, 2], .reply 8 502 []], [0, 0]) := by
  have hsizes : narrowSizes.Supported := by
    intro kind
    cases kind <;> decide
  have hfits : narrowSizes.Fits (.both (.list .value) .text)
      ([.object (charByte 't') 0xfffffffe, .float 0x7fc00001, .void, .long (-2)], "grüß dich") := by
    decide +kernel
  have hbodies : ∀ p ∈ [Packet.command 7 64 100 [1, 2], .reply 8 502 []],
      p.body.length < 2 ^ 32 - headerLength := by
    simp [Packet.body, headerLength]
  obtain ⟨hparts, hpackets⟩ := reading_undoes_writing hsizes
  have hstream := hpackets _ [0, 0] hbodies
  exact ⟨hsizes, hfits, hparts _ _ hfits, hstream⟩

end JvmDebug.Wire
