import MiniRpc.CodecStream
import Mathlib.Data.List.GetD

/-!
# Exact and atomic decoding

Any 24 bytes are the layout of exactly one header. `tryDecode` decides by
that header and the number of bytes behind it: it takes a whole frame, whose
message is encoded to the same bytes again, or it leaves the buffer alone.
-/

set_option autoImplicit false

namespace MiniRpc.FrameFormat
open MiniRpc.ByteOrder MiniRpc.ByteBuffer MiniRpc.WireCodec MiniRpc.CodecStream MiniRpc.Incremental

def headerOf (xs : Bytes) : ProtocolHeader := { readHeader xs with magic := readU32 xs }

/-- The three checks of `tryDecode`. -/
structure Acceptable (h : ProtocolHeader) : Prop where
  magic : h.magic = kMagic
  version : h.version = kProtocolVersion
  bodyLen : h.bodyLen.toNat ≤ kMaxBodySize

theorem headerOf_headerBytes (h : ProtocolHeader) (rest : Bytes) :
    headerOf (headerBytes h++rest) = h := by
  have hmagic : readU32 (headerBytes h++rest) = h.magic := by
    rw [headerBytes,List.append_assoc,readU32_bigEndian]
  rw [headerOf,readHeader_headerBytes,hmagic]

theorem bigEndian_read {p : Bytes} {n : ℕ} (h : n ≤ p.length) (bits : ℕ) (hbits : 256^n = 2^bits) :
    bigEndian n (wordValue (p.take n)%2^bits) = p.take n := by
  have hlen : (p.take n).length = n := List.length_take_of_le h
  have hlt := wordValue_lt (p.take n)
  rw [hlen,hbits] at hlt
  have hback := bigEndian_wordValue (p.take n)
  rw [hlen] at hback
  rw [Nat.mod_eq_of_lt hlt,hback]

theorem bigEndian_readU16 {p : Bytes} (h : 2 ≤ p.length) :
    bigEndian 2 (readU16 p).toNat = p.take 2 := by
  rw [readU16,UInt16.toNat_ofNat']
  exact bigEndian_read h 16 rfl

theorem bigEndian_readU32 {p : Bytes} (h : 4 ≤ p.length) :
    bigEndian 4 (readU32 p).toNat = p.take 4 := by
  rw [readU32,UInt32.toNat_ofNat']
  exact bigEndian_read h 32 rfl

theorem bigEndian_readU64 {p : Bytes} (h : 8 ≤ p.length) :
    bigEndian 8 (readU64 p).toNat = p.take 8 := by
  rw [readU64,UInt64.toNat_ofNat']
  exact bigEndian_read h 64 rfl

theorem headerBytes_headerOf {xs : Bytes} (h : kHeaderSize ≤ xs.length) :
    headerBytes (headerOf xs) = xs.take kHeaderSize := by
  have hlen : 24 ≤ xs.length := h
  have hdrop : ∀ n, (xs.drop n).length = xs.length-n := fun n => List.length_drop
  have h4 : xs.drop 4 = xs.getD 4 0::xs.drop 5 := by
    rw [List.drop_eq_getElem_cons (by omega),List.getD_eq_getElem _ _ (by omega)]
  have h5 : xs.drop 5 = xs.getD 5 0::xs.drop 6 := by
    rw [List.drop_eq_getElem_cons (by omega),List.getD_eq_getElem _ _ (by omega)]
  rw [headerBytes,headerOf,readHeader]
  dsimp only
  rw [bigEndian_readU32 (by omega),bigEndian_readU16 (by rw [hdrop]; omega),
    bigEndian_readU64 (by rw [hdrop]; omega),bigEndian_readU32 (by rw [hdrop]; omega),
    bigEndian_readU32 (by rw [hdrop]; omega)]
  have h16 : (xs.drop 16).take 4++(xs.drop 20).take 4 = (xs.drop 16).take 8 := by
    rw [show xs.drop 20 = (xs.drop 16).drop 4 by rw [List.drop_drop],← List.take_add]
  have h8 : (xs.drop 8).take 8++(xs.drop 16).take 8 = (xs.drop 8).take 16 := by
    rw [show xs.drop 16 = (xs.drop 8).drop 8 by rw [List.drop_drop],← List.take_add]
  have h6 : (xs.drop 6).take 2++(xs.drop 8).take 16 = (xs.drop 6).take 18 := by
    rw [show xs.drop 8 = (xs.drop 6).drop 2 by rw [List.drop_drop],← List.take_add]
  have htail : xs.getD 4 0::xs.getD 5 0::(xs.drop 6).take 18 = (xs.drop 4).take 20 := by
    rw [h4,h5]
    rfl
  rw [h16,h8,h6,htail,← List.take_add]
  rfl

theorem starts_iff {h : ProtocolHeader} {xs : Bytes} :
    headerBytes h <+: xs ↔ kHeaderSize ≤ xs.length ∧ headerOf xs = h := by
  constructor
  · rintro ⟨rest,rfl⟩
    refine ⟨?_,headerOf_headerBytes h rest⟩
    rw [List.length_append,headerBytes_length]
    exact Nat.le_add_right _ _
  · rintro ⟨hlen,rfl⟩
    rw [headerBytes_headerOf hlen]
    exact List.take_prefix _ _

/-- What `tryDecode` decides, in terms of the header. -/
theorem parseFrame_cases (xs : Bytes) :
    (parseFrame xs = .wait ∧ ∀ h, headerBytes h <+: xs →
      Acceptable h ∧ xs.length < kHeaderSize+h.bodyLen.toNat) ∨
    (∃ e h, parseFrame xs = .reject e ∧ headerBytes h <+: xs ∧ ¬ Acceptable h) ∨
    (∃ h body rest, parseFrame xs = .item ⟨h,body⟩ rest ∧ Acceptable h ∧
      body.length = h.bodyLen.toNat ∧ xs = headerBytes h++(body++rest)) := by
  unfold parseFrame
  by_cases hshort : xs.length < kHeaderSize
  · rw [if_pos hshort]
    refine .inl ⟨rfl,fun h hh => ?_⟩
    exact absurd (starts_iff.mp hh).1 (Nat.not_le_of_lt hshort)
  rw [if_neg hshort]
  have hlen := Nat.le_of_not_lt hshort
  have hstarts : headerBytes (headerOf xs) <+: xs := starts_iff.mpr ⟨hlen,rfl⟩
  by_cases hmagic : readU32 xs = kMagic
  swap
  · rw [if_pos hmagic]
    exact .inr (.inl ⟨_,_,rfl,hstarts,fun h => hmagic h.magic⟩)
  rw [if_neg (fun h => h hmagic)]
  by_cases hversion : (readHeader xs).version = kProtocolVersion
  swap
  · rw [if_pos hversion]
    exact .inr (.inl ⟨_,_,rfl,hstarts,fun h => hversion h.version⟩)
  rw [if_neg (fun h => h hversion)]
  by_cases hbody : (readHeader xs).bodyLen.toNat > kMaxBodySize
  · rw [if_pos hbody]
    exact .inr (.inl ⟨_,_,rfl,hstarts,fun h => absurd h.bodyLen (Nat.not_le_of_lt hbody)⟩)
  rw [if_neg hbody]
  have hok : Acceptable (headerOf xs) := ⟨hmagic,hversion,Nat.le_of_not_lt hbody⟩
  by_cases hwait : xs.length < kHeaderSize+(readHeader xs).bodyLen.toNat
  · rw [if_pos hwait]
    refine .inl ⟨rfl,fun h hh => ?_⟩
    rw [← (starts_iff.mp hh).2]
    exact ⟨hok,hwait⟩
  rw [if_neg hwait]
  have hheader : readHeader xs = headerOf xs := by
    rw [headerOf,hmagic]
    rfl
  rw [hheader] at hwait ⊢
  refine .inr (.inr ⟨headerOf xs,_,_,rfl,hok,?_,?_⟩)
  · rw [List.length_take_of_le (by rw [List.length_drop]; omega)]
  · rw [headerBytes_headerOf hlen,← List.drop_drop,List.take_append_drop,List.take_append_drop]

theorem tryDecode_header (b : Buffer) :
    (tryDecode b = (.ok none,b) ∧ ∀ h, headerBytes h <+: b.readable →
      Acceptable h ∧ b.readableBytes < kHeaderSize+h.bodyLen.toNat) ∨
    (∃ e h, tryDecode b = (.error e,b) ∧ headerBytes h <+: b.readable ∧ ¬ Acceptable h) ∨
    (∃ h body b', tryDecode b = (.ok (some ⟨h,body⟩),b') ∧ Acceptable h ∧
      body.length = h.bodyLen.toNat ∧ b.readable = headerBytes h++(body++b'.readable)) := by
  have hcases := parseFrame_cases b.readable
  rw [readable_length] at hcases
  rcases tryDecode_cases b with ⟨hp,hd⟩ | ⟨e,hp,hd⟩ | ⟨m,b',hp,hd⟩
  · rw [hp] at hcases
    rcases hcases with ⟨-,hwait⟩ | ⟨_,_,he,-⟩ | ⟨_,_,_,hi,-⟩
    · exact .inl ⟨hd,hwait⟩
    · cases he
    · cases hi
  · rw [hp] at hcases
    rcases hcases with ⟨hw,-⟩ | ⟨_,h,-,hh,hbad⟩ | ⟨_,_,_,hi,-⟩
    · cases hw
    · exact .inr (.inl ⟨e,h,hd,hh,hbad⟩)
    · cases hi
  · rw [hp] at hcases
    rcases hcases with ⟨hw,-⟩ | ⟨_,_,he,-⟩ | ⟨h,body,rest,hi,hok,hlen,hx⟩
    · cases hw
    · cases he
    · obtain ⟨rfl,rfl⟩ := Outcome.item.inj hi
      exact .inr (.inr ⟨h,body,b',hd,hok,hlen,hx⟩)

theorem starts_unique {h k : ProtocolHeader} {xs : Bytes} (hh : headerBytes h <+: xs)
    (hk : headerBytes k <+: xs) : h = k := (starts_iff.mp hh).2.symm.trans (starts_iff.mp hk).2

theorem returns_iff (b : Buffer) :
    (∃ m, (tryDecode b).1 = .ok (some m)) ↔
      ∃ h, headerBytes h <+: b.readable ∧ Acceptable h ∧
        kHeaderSize+h.bodyLen.toNat ≤ b.readableBytes := by
  rcases tryDecode_header b with ⟨hd,hwait⟩ | ⟨e,h,hd,hh,hbad⟩ | ⟨h,body,b',hd,hok,hlen,hx⟩
  · rw [hd]
    refine ⟨fun ⟨m,hm⟩ => by simp at hm,?_⟩
    rintro ⟨h,hh,-,hfits⟩
    exact absurd (hwait h hh).2 (Nat.not_lt_of_le hfits)
  · rw [hd]
    refine ⟨fun ⟨m,hm⟩ => by simp at hm,?_⟩
    rintro ⟨k,hk,hok,-⟩
    rw [starts_unique hk hh] at hok
    exact absurd hok hbad
  · rw [hd]
    refine ⟨fun _ => ⟨h,⟨_,hx.symm⟩,hok,?_⟩,fun _ => ⟨_,rfl⟩⟩
    rw [← readable_length,hx,List.length_append,headerBytes_length,List.length_append,hlen]
    omega

theorem encoded_acceptable {h : ProtocolHeader} {body : Bytes} (hbody : body.length = h.bodyLen.toNat) :
    encoded ⟨h,body⟩ = headerBytes h++body := by
  rw [encoded_frame,frame_header]
  dsimp only
  rw [hbody,UInt32.ofNat_toNat]

theorem returned_consumes (b : Buffer) (m : ProtocolMessage) (hm : (tryDecode b).1 = .ok (some m)) :
    headerBytes m.header <+: b.readable ∧
    (encoded m).length = kHeaderSize+m.header.bodyLen.toNat ∧
    b.readable = encoded m++(tryDecode b).2.readable := by
  rcases tryDecode_header b with ⟨hd,-⟩ | ⟨e,h,hd,-,-⟩ | ⟨h,body,b',hd,hok,hlen,hx⟩
  · rw [hd] at hm
    simp at hm
  · rw [hd] at hm
    simp at hm
  · rw [hd] at hm ⊢
    obtain rfl : m = ⟨h,body⟩ := by simpa using hm.symm
    rw [encoded_acceptable hlen]
    refine ⟨⟨_,hx.symm⟩,?_,?_⟩
    · rw [List.length_append,headerBytes_length,hlen]
    · rw [List.append_assoc]
      exact hx

theorem throws_iff (b : Buffer) :
    (∃ e, (tryDecode b).1 = .error e) ↔
      kHeaderSize ≤ b.readableBytes ∧ ∃ h, headerBytes h <+: b.readable ∧ ¬ Acceptable h := by
  rcases tryDecode_header b with ⟨hd,hwait⟩ | ⟨e,h,hd,hh,hbad⟩ | ⟨h,body,b',hd,hok,hlen,hx⟩
  · rw [hd]
    refine ⟨fun ⟨e,he⟩ => by simp at he,?_⟩
    rintro ⟨-,h,hh,hbad⟩
    exact absurd (hwait h hh).1 hbad
  · rw [hd]
    exact ⟨fun _ => ⟨readable_length b ▸ (starts_iff.mp hh).1,h,hh,hbad⟩,fun _ => ⟨e,rfl⟩⟩
  · rw [hd]
    refine ⟨fun ⟨e,he⟩ => by simp at he,?_⟩
    rintro ⟨-,k,hk,hbad⟩
    rw [starts_unique hk ⟨_,hx.symm⟩] at hbad
    exact absurd hok hbad

theorem unreturned_keeps (b : Buffer) (h : ∀ m, (tryDecode b).1 ≠ .ok (some m)) :
    (tryDecode b).2.readable = b.readable := by
  rcases tryDecode_header b with ⟨hd,-⟩ | ⟨e,_,hd,-,-⟩ | ⟨k,body,b',hd,-,-,-⟩
  · rw [hd]
  · rw [hd]
  · rw [hd] at h
    exact absurd rfl (h ⟨k,body⟩)

/-- A message is returned exactly for an acceptable header with its body
behind it, and is encoded to the bytes that were consumed; an exception is
thrown exactly for a header that is not acceptable; and where no message is
returned nothing is consumed. -/
theorem decoding_exact (b : Buffer) :
    ((∃ m, (tryDecode b).1 = .ok (some m)) ↔
      ∃ h, headerBytes h <+: b.readable ∧ Acceptable h ∧
        kHeaderSize+h.bodyLen.toNat ≤ b.readableBytes) ∧
    (∀ m, (tryDecode b).1 = .ok (some m) →
      headerBytes m.header <+: b.readable ∧
      (encoded m).length = kHeaderSize+m.header.bodyLen.toNat ∧
      b.readable = encoded m++(tryDecode b).2.readable) ∧
    ((∃ e, (tryDecode b).1 = .error e) ↔
      kHeaderSize ≤ b.readableBytes ∧ ∃ h, headerBytes h <+: b.readable ∧ ¬ Acceptable h) ∧
    ((∀ m, (tryDecode b).1 ≠ .ok (some m)) → (tryDecode b).2.readable = b.readable) :=
  ⟨returns_iff b,returned_consumes b,throws_iff b,unreturned_keeps b⟩

def oddFrame : Bytes :=
  encoded ⟨{ magic := kMagic, version := kProtocolVersion, type := 200, flags := 0xABCD, seq := 258,
             reserved := 0xFFFFFFFF },[7,8]⟩++[77,73,78]

theorem odd_frame_decoded :
    ((Buffer.new 64).append oddFrame).readable =
      encoded ⟨{ magic := kMagic, version := kProtocolVersion, type := 200, flags := 0xABCD,
                 seq := 258, bodyLen := 2, reserved := 0xFFFFFFFF },[7,8]⟩++
        (tryDecode ((Buffer.new 64).append oddFrame)).2.readable ∧
    (tryDecode ((Buffer.new 64).append [77,73,78])).2.readable =
      ((Buffer.new 64).append [77,73,78]).readable :=
  ⟨((decoding_exact ((Buffer.new 64).append oddFrame)).2.1 _ (by decide +kernel)).2.2,
    (decoding_exact ((Buffer.new 64).append [77,73,78])).2.2.2 fun m hm => by
      rw [show (tryDecode ((Buffer.new 64).append [77,73,78])).1 = .ok none by decide +kernel] at hm
      simp at hm⟩

end MiniRpc.FrameFormat
