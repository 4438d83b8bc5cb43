import MiniRpc.CallController

/-!
# The proto3 encoding of the two envelopes

A concrete serializer for the messages of `rpc.proto`, to run the model on,
and the fields that the messages of other services are made of.
A field with its default value is omitted, integers are base-128 varints,
strings and bytes carry their length. The parser accepts exactly the
encodings the serializer writes.
-/

set_option autoImplicit false

namespace MiniRpc.ProtoWire
open MiniRpc.ByteBuffer MiniRpc.CallController

def putVarint : ℕ → ℕ → Bytes
  | 0, n => [UInt8.ofNat n]
  | fuel+1, n => if n < 128 then [UInt8.ofNat n] else UInt8.ofNat (n%128+128)::putVarint fuel (n/128)

def takeVarint : Bytes → Option (ℕ × Bytes)
  | [] => none
  | b::bs => if b.toNat < 128 then some (b.toNat,bs)
      else (takeVarint bs).map fun r => (r.1*128+(b.toNat-128),r.2)

theorem takeVarint_putVarint (fuel n : ℕ) (h : n ≤ fuel) (rest : Bytes) :
    takeVarint (putVarint fuel n++rest) = some (n,rest) := by
  induction fuel generalizing n with
  | zero =>
    obtain rfl : n = 0 := by omega
    rfl
  | succ fuel ih =>
    rw [putVarint]
    split
    · rename_i hn
      simp [takeVarint,UInt8.toNat_ofNat',Nat.mod_eq_of_lt (show n < 256 by omega),hn]
    · have hb : (UInt8.ofNat (n%128+128)).toNat = n%128+128 := by
        rw [UInt8.toNat_ofNat',Nat.mod_eq_of_lt (by omega)]
      rw [List.cons_append,takeVarint,hb,if_neg (by omega),ih _ (by omega)]
      simp only [Option.map_some,Option.some.injEq,Prod.mk.injEq,and_true]
      omega

def putField (tag : UInt8) (bs : Bytes) : Bytes :=
  if bs = [] then [] else tag::(putVarint bs.length bs.length++bs)

def takeField (tag : UInt8) (xs : Bytes) : Option (Bytes × Bytes) :=
  if xs.head? = some tag then
    (takeVarint xs.tail).bind fun r => some (r.2.take r.1,r.2.drop r.1)
  else some ([],xs)

theorem takeField_putField (tag : UInt8) (bs rest : Bytes) (h : rest.head? ≠ some tag) :
    takeField tag (putField tag bs++rest) = some (bs,rest) := by
  unfold putField
  split
  · rename_i hb
    rw [List.nil_append,takeField,if_neg h,hb]
  · rw [List.cons_append,takeField,List.head?_cons,if_pos rfl,List.tail_cons,List.append_assoc,
      takeVarint_putVarint _ _ (le_refl _)]
    simp

/-- An `int32` field: a negative value is sign-extended to 64 bits. -/
def putInt32 (tag : UInt8) (v : Int32) : Bytes :=
  if v = 0 then []
  else tag::putVarint (v.toBitVec.signExtend 64).toNat (v.toBitVec.signExtend 64).toNat

def takeInt32 (tag : UInt8) (xs : Bytes) : Option (Int32 × Bytes) :=
  if xs.head? = some tag then
    (takeVarint xs.tail).bind fun r => some (⟨⟨BitVec.ofNat 32 r.1⟩⟩,r.2)
  else some (0,xs)

theorem takeInt32_putInt32 (tag : UInt8) (v : Int32) (rest : Bytes) (h : rest.head? ≠ some tag) :
    takeInt32 tag (putInt32 tag v++rest) = some (v,rest) := by
  unfold putInt32
  split
  · rename_i hv
    rw [List.nil_append,takeInt32,if_neg h,hv]
  · rw [List.cons_append,takeInt32,List.head?_cons,if_pos rfl,List.tail_cons,
      takeVarint_putVarint _ _ (le_refl _),Option.bind_some,BitVec.ofNat_toNat]
    have hb : (v.toBitVec.signExtend 64).setWidth 32 = v.toBitVec := by
      ext i hi
      rw [BitVec.getElem_setWidth,BitVec.getLsbD_signExtend]
      simp [show i < 64 by omega,hi]
    rw [hb]
    rfl

def putUInt32 (tag : UInt8) (v : UInt32) : Bytes :=
  if v = 0 then [] else tag::putVarint v.toNat v.toNat

def takeUInt32 (tag : UInt8) (xs : Bytes) : Option (UInt32 × Bytes) :=
  if xs.head? = some tag then (takeVarint xs.tail).bind fun r => some (UInt32.ofNat r.1,r.2)
  else some (0,xs)

theorem takeUInt32_putUInt32 (tag : UInt8) (v : UInt32) (rest : Bytes) (h : rest.head? ≠ some tag) :
    takeUInt32 tag (putUInt32 tag v++rest) = some (v,rest) := by
  rw [putUInt32]
  by_cases hv : v = 0
  · rw [if_pos hv,List.nil_append,takeUInt32,if_neg h,hv]
  · rw [if_neg hv,List.cons_append,takeUInt32,List.head?_cons,if_pos rfl,List.tail_cons,
      takeVarint_putVarint _ _ (le_refl _),Option.bind_some,UInt32.ofNat_toNat]

def putRepeated (tag : UInt8) (items : List Bytes) : Bytes :=
  items.flatMap fun bs => tag::(putVarint bs.length bs.length++bs)

def takeRepeated (tag : UInt8) : ℕ → Bytes → Option (List Bytes)
  | _, [] => some []
  | 0, _::_ => none
  | fuel+1, b::xs =>
    if b = tag then
      (takeVarint xs).bind fun r => (takeRepeated tag fuel (r.2.drop r.1)).map (r.2.take r.1::·)
    else none

theorem takeRepeated_putRepeated (tag : UInt8) (items : List Bytes) (fuel : ℕ)
    (h : items.length ≤ fuel) : takeRepeated tag fuel (putRepeated tag items) = some items := by
  induction items generalizing fuel with
  | nil => cases fuel <;> rfl
  | cons bs items ih =>
    cases fuel with
    | zero => simp at h
    | succ fuel =>
      have hrest := ih fuel (Nat.le_of_succ_le_succ h)
      rw [putRepeated,List.flatMap_cons,List.cons_append,takeRepeated,if_pos rfl,List.append_assoc,
        takeVarint_putVarint _ _ (le_refl _),Option.bind_some,List.drop_left,List.take_left]
      exact congrArg (Option.map (bs::·)) hrest

theorem length_le_putRepeated (tag : UInt8) (items : List Bytes) :
    items.length ≤ (putRepeated tag items).length := by
  induction items with
  | nil => exact Nat.zero_le 0
  | cons bs items ih =>
    rw [putRepeated,List.flatMap_cons,List.length_append,List.length_cons,List.length_cons,
      ← putRepeated]
    omega

theorem putRepeated_head (tag other : UInt8) (items : List Bytes) (h : tag ≠ other) :
    (putRepeated tag items).head? ≠ some other := by
  cases items with
  | nil => exact nofun
  | cons bs items => simpa [putRepeated] using h

def utf8 (s : String) : Bytes := s.toByteArray.data.toList

def takeText (bs : Bytes) : Option String := String.fromUTF8? ⟨bs.toArray⟩

theorem takeText_utf8 (s : String) : takeText (utf8 s) = some s := by
  rw [takeText,utf8,Array.toArray_toList,String.fromUTF8?,dif_pos s.isValidUTF8]
  rfl

theorem putField_head (tag other : UInt8) (bs : Bytes) (h : tag ≠ other) :
    (putField tag bs).head? ≠ some other := by
  unfold putField
  split <;> simp [h]

theorem putUInt32_head (tag other : UInt8) (v : UInt32) (h : tag ≠ other) :
    (putUInt32 tag v).head? ≠ some other := by
  rw [putUInt32]
  split <;> simp [h]

theorem append_head {xs ys : Bytes} {other : UInt8} (hx : xs.head? ≠ some other)
    (hy : ys.head? ≠ some other) : (xs++ys).head? ≠ some other := by
  rw [List.head?_append]
  cases hp : xs.head? with
  | none => exact hy
  | some b => rwa [hp] at hx

def requestSerializer : Serializer RpcRequest where
  serialize m := putField 0x0A (utf8 m.method)++putField 0x12 m.request
  parse xs := do
    let (method,xs) ← takeField 0x0A xs
    let (request,xs) ← takeField 0x12 xs
    let method ← takeText method
    if xs = [] then some ⟨method,request⟩ else none
  parse_serialize m := by
    have h := takeField_putField 0x12 m.request [] (by simp)
    rw [List.append_nil] at h
    simp only [takeField_putField 0x0A _ _ (putField_head 0x12 0x0A _ (by decide)),h,
      takeText_utf8,Option.bind_eq_bind,Option.bind_some,if_true]

def responseSerializer : Serializer RpcResponse where
  serialize m := putInt32 0x08 m.errorCode++(putField 0x12 (utf8 m.errorMessage)++
    putField 0x1A m.response)
  parse xs := do
    let (errorCode,xs) ← takeInt32 0x08 xs
    let (message,xs) ← takeField 0x12 xs
    let (response,xs) ← takeField 0x1A xs
    let message ← takeText message
    if xs = [] then some ⟨errorCode,message,response⟩ else none
  parse_serialize m := by
    have h := takeField_putField 0x1A m.response [] (by simp)
    rw [List.append_nil] at h
    have hhead := append_head (putField_head 0x12 0x08 (utf8 m.errorMessage) (by decide))
      (putField_head 0x1A 0x08 m.response (by decide))
    simp only [takeInt32_putInt32 0x08 _ _ hhead,
      takeField_putField 0x12 _ _ (putField_head 0x1A 0x12 _ (by decide)),h,
      takeText_utf8,Option.bind_eq_bind,Option.bind_some,if_true]

def protoEnvelopes : Envelopes := ⟨requestSerializer,responseSerializer⟩

end MiniRpc.ProtoWire
