/-
  File:      Rdmalib/Meta/RoundTrip.lean
  Subject:   `read_frame` reads exactly the image of `Message::encode`.

  * atoms: each method of `Reader` reads exactly the image of the matching `put_*`
    (`u16_reads`, `u32_reads`, `u64_reads`, `string_reads`);
  * records and messages: `regionDesc_reads`, `tupleDesc_reads`, `decodeBody_reads`;
  * frames: `readFrame_cases` says what `read_frame` answers on EVERY byte stream;
  * results: messages written in order are read back in order (`readFrames_writeFrames`), and
    `read_frame` accepts nothing but encoded messages (`readFrame_exact`).
-/
import Rdmalib.Meta.Wire

namespace Rdmalib

open Base

/-! ## 1. Atoms -/

/-- The cursor as an input: what lies behind `pos` is ahead; `pos` never passes the end; an
    error refuses the input iff it is a protocol violation. -/
def readerInput : Input Reader Fault where
  rest r := r.buf.drop r.pos
  valid r := r.pos ≤ r.buf.length ∧ r.buf.length < wordSize
  refusal f := ∃ text, f = bad text

/-- `take` either refuses or advances by `len`; it never leaves the slice. -/
theorem take_run {r : Reader} (hv : readerInput.valid r) (len : Nat) :
    Reader.take len r =
      if len ≤ (readerInput.rest r).length then
        .ok ((readerInput.rest r).take len, { r with pos := r.pos + len })
      else .error (bad "the payload ends mid-message") := by
  obtain ⟨hpos, hbuf⟩ := hv
  have hsub : usizeSub r.buf.length r.pos = .ok (r.buf.length - r.pos) := if_pos hpos
  unfold Reader.take
  simp only [hsub, readerInput, List.length_drop, Bind.bind, Except.bind]
  by_cases h : len ≤ r.buf.length - r.pos
  · have hadd : usizeAdd r.pos len = .ok (r.pos + len) := if_pos (by omega)
    have hslice : slice r.buf r.pos (r.pos + len) = .ok ((r.buf.drop r.pos).take len) := by
      unfold slice
      rw [if_pos ⟨by omega, by omega⟩]
      simp
    rw [if_neg (show ¬ len > r.buf.length - r.pos by omega), if_pos h]
    simp only [hadd, hslice, Pure.pure, Except.pure]
  · rw [if_pos (show len > r.buf.length - r.pos by omega), if_neg h]
    rfl

theorem take_reads (len : Nat) :
    Reads readerInput (Reader.take len) (fun bs => bs.length = len) id where
  accepts r bs tail hv hlen hr := by
    subst hlen
    rw [take_run hv, hr, if_pos (by simp), id, List.take_left]
    refine ⟨_, rfl, ?_, ?_, hv.2⟩
    · show r.buf.drop (r.pos + bs.length) = tail
      rw [← List.drop_drop, show r.buf.drop r.pos = bs ++ tail from hr, List.drop_left]
    · have : (r.buf.drop r.pos).length = bs.length + tail.length := by
        rw [show r.buf.drop r.pos = bs ++ tail from hr, List.length_append]
      rw [List.length_drop] at this
      show r.pos + bs.length ≤ r.buf.length
      have := hv.1
      omega
  spells r bs r' hv h := by
    rw [take_run hv] at h
    split at h
    · rename_i hle
      cases h
      have hle' : len ≤ r.buf.length - r.pos := by simpa [readerInput] using hle
      refine ⟨by simpa using hle, ?_, ?_, hv.2⟩
      · show r.buf.drop r.pos = (r.buf.drop r.pos).take len ++ r.buf.drop (r.pos + len)
        rw [← List.drop_drop, List.take_append_drop]
      · show r.pos + len ≤ r.buf.length
        have := hv.1
        omega
    · cases h
  refuses r e hv h := by
    rw [take_run hv] at h
    split at h
    · cases h
    · cases h
      exact ⟨_, rfl⟩

/-- A fixed-width integer: `take w`, then a reading `dec` of the bytes that inverts `enc`. -/
theorem fixed_reads {α : Type} {w : Nat} {p : StateT Reader (Except Fault) α}
    (dec : List UInt8 → α) (enc : α → List UInt8) (henc : ∀ x, (enc x).length = w)
    (hdec : ∀ x, dec (enc x) = x) (hinv : ∀ bs, bs.length = w → enc (dec bs) = bs)
    (herr : ∀ r e, Reader.take w r = .error e → p r = .error e)
    (hok : ∀ r bs r', Reader.take w r = .ok (bs, r') → bs.length = w → p r = .ok (dec bs, r')) :
    Reads readerInput p (fun _ => True) enc where
  accepts r x tail hv _ hr := by
    obtain ⟨r', h, hr', hv'⟩ := (take_reads w).accepts r (enc x) tail hv (henc x) hr
    exact ⟨r', by rw [hok r _ r' h (henc x), hdec], hr', hv'⟩
  spells r x r' hv h := by
    cases ht : Reader.take w r with
    | error e => rw [herr r e ht] at h; cases h
    | ok q =>
        obtain ⟨bs, r₁⟩ := q
        obtain ⟨hlen, hr, hv'⟩ := (take_reads w).spells r bs r₁ hv ht
        rw [hok r bs r₁ ht hlen] at h
        cases h
        exact ⟨trivial, by rw [hinv bs hlen]; exact hr, hv'⟩
  refuses r e hv h := by
    cases ht : Reader.take w r with
    | error e' =>
        rw [herr r e' ht] at h
        cases h
        exact (take_reads w).refuses r e hv ht
    | ok q =>
        obtain ⟨bs, r₁⟩ := q
        rw [hok r bs r₁ ht ((take_reads w).spells r bs r₁ hv ht).1] at h
        cases h

theorem u16_reads : Reads readerInput Reader.u16 (fun _ => True) u16Bytes := by
  refine fixed_reads (fun bs => UInt16.ofNat (leValue bs)) u16Bytes (fun _ => length_leBytes _ _)
    leValue_leBytes_u16 (fun _ h => leBytes_leValue_u16 h) (fun r e h => ?_) fun r bs r' h hl => ?_
  · simp only [Reader.u16, Bind.bind, StateT.bind, h, Except.bind]
  · obtain ⟨b0, b1, rfl⟩ := List.length_eq_two.mp hl
    simp only [Reader.u16, Bind.bind, StateT.bind, h, Except.bind]
    rfl

theorem u32_reads : Reads readerInput Reader.u32 (fun _ => True) u32Bytes := by
  refine fixed_reads (fun bs => UInt32.ofNat (leValue bs)) u32Bytes (fun _ => length_leBytes _ _)
    leValue_leBytes_u32 (fun _ h => leBytes_leValue_u32 h) (fun r e h => ?_) fun r bs r' h hl => ?_
  · simp only [Reader.u32, Bind.bind, StateT.bind, h, Except.bind]
  · match bs, hl with
    | [b0, b1, b2, b3], _ =>
        simp only [Reader.u32, Bind.bind, StateT.bind, h, Except.bind]
        rfl

theorem u64_reads : Reads readerInput Reader.u64 (fun _ => True) u64Bytes := by
  refine fixed_reads (fun bs => UInt64.ofNat (leValue bs)) u64Bytes (fun _ => length_leBytes _ _)
    leValue_leBytes_u64 (fun _ h => leBytes_leValue_u64 h) (fun r e h => ?_) fun r bs r' h hl => ?_
  · simp only [Reader.u64, Bind.bind, StateT.bind, h, Except.bind]
  · simp only [Reader.u64, Bind.bind, StateT.bind, h, Except.bind]
    rw [if_neg (by simp [hl])]
    rfl

/-! ## 2. Strings -/

theorem fromUTF8_strBytes (s : String) : String.fromUTF8? (strBytes s).toByteArray = some s := by
  have h : (strBytes s).toByteArray = s.toByteArray := by
    apply ByteArray.ext
    rw [List.data_toByteArray]
    rfl
  rw [h]
  unfold String.fromUTF8?
  exact dif_pos s.isValidUTF8

theorem strBytes_of_fromUTF8 {bs : List UInt8} {s : String}
    (h : String.fromUTF8? bs.toByteArray = some s) : strBytes s = bs := by
  unfold String.fromUTF8? at h
  split at h
  · cases h
    simp [strBytes, String.fromUTF8]
  · cases h

/-- The image of `put_str`. -/
def strImage (s : String) : List UInt8 :=
  u32Bytes (UInt32.ofNat (strBytes s).length) ++ strBytes s

/-- A string whose byte length fits the length field. -/
def StrFits (s : String) : Prop := (strBytes s).length < 2 ^ 32

/-- The bytes of a string behind its length field. -/
theorem text_reads (len : UInt32) :
    Reads readerInput
      (do
        let bytes ← Reader.take len.toNat
        match String.fromUTF8? bytes.toByteArray with
        | some s => return s
        | none => throw (bad "a string is not valid UTF-8"))
      (fun s => UInt32.ofNat (strBytes s).length = len ∧ StrFits s) strBytes where
  accepts r s tail hv hs hr := by
    obtain ⟨hlen, hfit⟩ := hs
    have hlen' : (strBytes s).length = len.toNat := by
      rw [← hlen, UInt32.toNat_ofNat_of_lt' hfit]
    obtain ⟨r', h, hr', hv'⟩ := (take_reads len.toNat).accepts r _ tail hv hlen' hr
    refine ⟨r', ?_, hr', hv'⟩
    simp only [Bind.bind, StateT.bind, h, Except.bind, fromUTF8_strBytes]
    rfl
  spells r s r' hv h := by
    cases ht : Reader.take len.toNat r with
    | error e =>
        simp only [Bind.bind, StateT.bind, ht, Except.bind] at h
        cases h
    | ok q =>
        obtain ⟨bs, r₁⟩ := q
        obtain ⟨hlen, hr, hv'⟩ := (take_reads len.toNat).spells r bs r₁ hv ht
        simp only [Bind.bind, StateT.bind, ht, Except.bind] at h
        cases hs : String.fromUTF8? bs.toByteArray with
        | none => rw [hs] at h; cases h
        | some s' =>
            rw [hs] at h
            cases h
            have hb := strBytes_of_fromUTF8 hs
            refine ⟨⟨?_, ?_⟩, by rw [hb]; exact hr, hv'⟩
            · rw [hb, hlen]
              exact UInt32.ofNat_toNat
            · show (strBytes s).length < 2 ^ 32
              rw [hb, hlen]
              exact len.toNat_lt
  refuses r e hv h := by
    cases ht : Reader.take len.toNat r with
    | error e' =>
        simp only [Bind.bind, StateT.bind, ht, Except.bind] at h
        cases h
        exact (take_reads len.toNat).refuses r e hv ht
    | ok q =>
        obtain ⟨bs, r₁⟩ := q
        simp only [Bind.bind, StateT.bind, ht, Except.bind] at h
        cases hs : String.fromUTF8? bs.toByteArray with
        | none =>
            rw [hs] at h
            cases h
            exact ⟨_, rfl⟩
        | some s' => rw [hs] at h; cases h

theorem string_reads : Reads readerInput Reader.string StrFits strImage :=
  Reads.field (fun s => UInt32.ofNat (strBytes s).length) u32_reads (fun _ _ => trivial)
    (fun _ _ => rfl) fun len _ => text_reads len

/-! ## 3. Records -/

/-- The image of one region record. -/
def regionImage (d : RegionDesc) : List UInt8 :=
  u32Bytes d.id ++ (strImage d.name ++ (u64Bytes d.size ++ (u32Bytes d.elemSize ++
    (u32Bytes d.elemAlign ++ strImage d.elemType))))

/-- The image of one tuple record. -/
def tupleImage (t : TupleDesc) : List UInt8 :=
  u32Bytes t.regionId ++ (u64Bytes t.remoteAddr ++ (u64Bytes t.size ++ u32Bytes t.rkey))

/-- A region record whose strings fit their length fields. -/
def RegionFits (d : RegionDesc) : Prop := StrFits d.name ∧ StrFits d.elemType

theorem putRegion_eq (payload : List UInt8) (d : RegionDesc) :
    putRegion payload d = payload ++ regionImage d := by
  simp [putRegion, putU32, putU64, putStr, regionImage, strImage, List.append_assoc]

theorem putTuple_eq (payload : List UInt8) (t : TupleDesc) :
    putTuple payload t = payload ++ tupleImage t := by
  simp [putTuple, putU32, putU64, tupleImage, List.append_assoc]

/-- A loop that appends one image per item has written the images in order. -/
theorem foldl_image {α : Type} {put : List UInt8 → α → List UInt8} {image : α → List UInt8}
    (h : ∀ buf x, put buf x = buf ++ image x) (xs : List α) (buf : List UInt8) :
    xs.foldl put buf = buf ++ xs.flatMap image := by
  induction xs generalizing buf with
  | nil => simp
  | cons x xs ih => rw [List.foldl_cons, ih, h, List.flatMap_cons, List.append_assoc]

theorem regionDesc_reads : Reads readerInput regionDesc RegionFits regionImage := by
  refine Reads.field RegionDesc.id u32_reads (fun _ _ => trivial) (fun _ _ => rfl) fun id _ => ?_
  refine Reads.field RegionDesc.name string_reads (fun _ h => h.2.1) (fun _ _ => rfl)
    fun name hname => ?_
  refine Reads.field RegionDesc.size u64_reads (fun _ _ => trivial) (fun _ _ => rfl) fun size _ => ?_
  refine Reads.field RegionDesc.elemSize u32_reads (fun _ _ => trivial) (fun _ _ => rfl)
    fun elemSize _ => ?_
  refine Reads.field RegionDesc.elemAlign u32_reads (fun _ _ => trivial) (fun _ _ => rfl)
    fun elemAlign _ => ?_
  refine Reads.field RegionDesc.elemType string_reads (fun _ h => h.2.2.2.2.2.2)
    (fun _ _ => (List.append_nil _).symm) fun elemType htype => ?_
  refine (Reads.value (⟨id, name, size, elemSize, elemAlign, elemType⟩ : RegionDesc)).congr
    (fun d => ⟨?_, ?_⟩) fun _ _ => rfl
  · rintro rfl
    exact ⟨rfl, rfl, rfl, rfl, rfl, rfl, hname, htype⟩
  · rintro ⟨rfl, rfl, rfl, rfl, rfl, rfl, _⟩
    rfl

theorem tupleDesc_reads : Reads readerInput tupleDesc (fun _ => True) tupleImage := by
  refine Reads.field TupleDesc.regionId u32_reads (fun _ _ => trivial) (fun _ _ => rfl)
    fun regionId _ => ?_
  refine Reads.field TupleDesc.remoteAddr u64_reads (fun _ _ => trivial) (fun _ _ => rfl)
    fun remoteAddr _ => ?_
  refine Reads.field TupleDesc.size u64_reads (fun _ _ => trivial) (fun _ _ => rfl) fun size _ => ?_
  refine Reads.field TupleDesc.rkey u32_reads (fun _ _ => trivial)
    (fun _ _ => (List.append_nil _).symm) fun rkey _ => ?_
  refine (Reads.value (⟨regionId, remoteAddr, size, rkey⟩ : TupleDesc)).congr
    (fun t => ⟨?_, ?_⟩) fun _ _ => rfl
  · rintro rfl
    exact ⟨rfl, rfl, rfl, rfl, trivial⟩
  · rintro ⟨rfl, rfl, rfl, rfl, _⟩
    rfl

/-! ## 4. Messages -/

/-- The counts and string lengths of a message fit their `u32` fields. -/
def Message.Fits : Message → Prop
  | .metadata regions => regions.length < 2 ^ 32 ∧ ∀ d ∈ regions, RegionFits d
  | .tuples _ ts => ts.length < 2 ^ 32
  | _ => True

theorem metadata_payload (regions : List RegionDesc) :
    (Message.metadata regions).payload =
      u32Bytes (UInt32.ofNat regions.length) ++ regions.flatMap regionImage := by
  show regions.foldl putRegion _ = _
  rw [foldl_image putRegion_eq]
  rfl

theorem tuples_payload (group : UInt32) (ts : List TupleDesc) :
    (Message.tuples group ts).payload =
      u32Bytes group ++ (u32Bytes (UInt32.ofNat ts.length) ++ ts.flatMap tupleImage) := by
  show ts.foldl putTuple _ = _
  rw [foldl_image putTuple_eq]
  simp [putU32, List.append_assoc]

/-- The fields the decoder reads first, recovered from a message. -/
def Message.version : Message → UInt16
  | .hello version => version
  | .welcome version => version
  | _ => 0

def Message.group : Message → UInt32
  | .wantGroup group => group
  | .tuples group _ => group
  | _ => 0

def Message.regions : Message → List RegionDesc
  | .metadata regions => regions
  | _ => []

def Message.tupleList : Message → List TupleDesc
  | .tuples _ ts => ts
  | _ => []

/-- Which message a type code belongs to. -/
theorem ty_hello {m : Message} (h : m.ty = MSG_HELLO) : ∃ v, m = .hello v := by
  cases m <;> first | exact ⟨_, rfl⟩ | cases h

theorem ty_welcome {m : Message} (h : m.ty = MSG_WELCOME) : ∃ v, m = .welcome v := by
  cases m <;> first | exact ⟨_, rfl⟩ | cases h

theorem ty_wantGroup {m : Message} (h : m.ty = MSG_WANT_GROUP) : ∃ g, m = .wantGroup g := by
  cases m <;> first | exact ⟨_, rfl⟩ | cases h

theorem ty_update {m : Message} (h : m.ty = MSG_UPDATE) : m = .update := by
  cases m <;> first | rfl | cases h

theorem ty_metadata {m : Message} (h : m.ty = MSG_METADATA) : ∃ rs, m = .metadata rs := by
  cases m <;> first | exact ⟨_, rfl⟩ | cases h

theorem ty_tuples {m : Message} (h : m.ty = MSG_TUPLES) : ∃ g ts, m = .tuples g ts := by
  cases m <;> first | exact ⟨_, _, rfl⟩ | cases h

/-- The region records behind their count. -/
theorem regions_reads (count : UInt32) :
    Reads readerInput
      (do
        let regions ← times regionDesc count.toNat []
        return Message.metadata regions)
      (fun m => UInt32.ofNat m.regions.length = count ∧ m.ty = MSG_METADATA ∧ m.Fits)
      (fun m => m.regions.flatMap regionImage) := by
  refine Reads.field Message.regions (regionDesc_reads.times_nil count.toNat) (fun m h => ?_)
    (fun m h => (List.append_nil _).symm) fun rs hrs =>
      (Reads.value (Message.metadata rs)).congr (fun m => ⟨?_, ?_⟩) fun _ _ => rfl
  · obtain ⟨rs, rfl⟩ := ty_metadata h.2.1
    refine ⟨?_, h.2.2.2⟩
    rw [← h.1]
    exact (UInt32.toNat_ofNat_of_lt' h.2.2.1).symm
  · rintro rfl
    refine ⟨rfl, ?_, rfl, ?_, hrs.2⟩
    · show UInt32.ofNat rs.length = count
      rw [hrs.1]
      exact UInt32.ofNat_toNat
    · rw [hrs.1]
      exact count.toNat_lt
  · rintro ⟨hm, _, ht, _⟩
    obtain ⟨rs', rfl⟩ := ty_metadata ht
    exact congrArg _ hm

/-- The tuple records behind their count. -/
theorem tuples_reads (g count : UInt32) :
    Reads readerInput
      (do
        let ts ← times tupleDesc count.toNat []
        return Message.tuples g ts)
      (fun m => UInt32.ofNat m.tupleList.length = count ∧ m.group = g ∧ m.ty = MSG_TUPLES ∧ m.Fits)
      (fun m => m.tupleList.flatMap tupleImage) := by
  refine Reads.field Message.tupleList (tupleDesc_reads.times_nil count.toNat) (fun m h => ?_)
    (fun m h => (List.append_nil _).symm) fun ts hts =>
      (Reads.value (Message.tuples g ts)).congr (fun m => ⟨?_, ?_⟩) fun _ _ => rfl
  · obtain ⟨g', ts, rfl⟩ := ty_tuples h.2.2.1
    refine ⟨?_, fun _ _ => trivial⟩
    rw [← h.1]
    exact (UInt32.toNat_ofNat_of_lt' h.2.2.2).symm
  · rintro rfl
    refine ⟨rfl, ?_, rfl, rfl, ?_⟩
    · show UInt32.ofNat ts.length = count
      rw [hts.1]
      exact UInt32.ofNat_toNat
    · show ts.length < 2 ^ 32
      rw [hts.1]
      exact count.toNat_lt
  · rintro ⟨hm, _, hg, ht, _⟩
    obtain ⟨g', ts', rfl⟩ := ty_tuples ht
    cases hm
    cases hg
    rfl

/-- **`decode`'s match reads exactly the payloads of the messages of its type.** -/
theorem decodeBody_reads (ty : UInt8) :
    Reads readerInput (decodeBody ty) (fun m => m.ty = ty ∧ m.Fits) Message.payload := by
  unfold decodeBody
  split_ifs with h1 h2 h3 h4 h5 h6
  · subst h1
    refine Reads.field Message.version u16_reads (fun _ _ => trivial) (fun m h => ?_) fun v _ =>
      (Reads.value (Message.hello v)).congr (fun m => ⟨?_, ?_⟩) fun _ _ => rfl
    · obtain ⟨v, rfl⟩ := ty_hello h.1
      exact (List.append_nil _).symm
    · rintro rfl
      exact ⟨rfl, rfl, trivial⟩
    · rintro ⟨hv, ht, _⟩
      obtain ⟨v', rfl⟩ := ty_hello ht
      exact congrArg _ hv
  · subst h2
    refine Reads.field Message.version u16_reads (fun _ _ => trivial) (fun m h => ?_) fun v _ =>
      (Reads.value (Message.welcome v)).congr (fun m => ⟨?_, ?_⟩) fun _ _ => rfl
    · obtain ⟨v, rfl⟩ := ty_welcome h.1
      exact (List.append_nil _).symm
    · rintro rfl
      exact ⟨rfl, rfl, trivial⟩
    · rintro ⟨hv, ht, _⟩
      obtain ⟨v', rfl⟩ := ty_welcome ht
      exact congrArg _ hv
  · subst h3
    refine Reads.field Message.group u32_reads (fun _ _ => trivial) (fun m h => ?_) fun g _ =>
      (Reads.value (Message.wantGroup g)).congr (fun m => ⟨?_, ?_⟩) fun _ _ => rfl
    · obtain ⟨g, rfl⟩ := ty_wantGroup h.1
      exact (List.append_nil _).symm
    · rintro rfl
      exact ⟨rfl, rfl, trivial⟩
    · rintro ⟨hg, ht, _⟩
      obtain ⟨g', rfl⟩ := ty_wantGroup ht
      exact congrArg _ hg
  · subst h4
    refine (Reads.value Message.update).congr (fun m => ⟨?_, fun h => ty_update h.1⟩) ?_
    · rintro rfl
      exact ⟨rfl, trivial⟩
    · rintro m rfl
      rfl
  · subst h5
    refine Reads.field (fun m => UInt32.ofNat m.regions.length) u32_reads (fun _ _ => trivial)
      (fun m h => ?_) fun count _ => regions_reads count
    obtain ⟨rs, rfl⟩ := ty_metadata h.1
    exact metadata_payload rs
  · subst h6
    refine Reads.field Message.group u32_reads (fun _ _ => trivial) (fun m h => ?_) fun g _ =>
      Reads.field (fun m => UInt32.ofNat m.tupleList.length) u32_reads (fun _ _ => trivial)
        (fun m _ => rfl) fun count _ => tuples_reads g count
    obtain ⟨g, ts, rfl⟩ := ty_tuples h.1
    exact tuples_payload g ts
  · refine ⟨fun r m tail _ hm _ => ?_, fun r m r' _ h => (by cases h), fun r e _ h => ?_⟩
    · -- no message has an unknown type code
      obtain ⟨ht, _⟩ := hm
      cases m <;> first
        | exact absurd ht.symm h1 | exact absurd ht.symm h2 | exact absurd ht.symm h3
        | exact absurd ht.symm h4 | exact absurd ht.symm h5 | exact absurd ht.symm h6
    · cases h
      exact ⟨_, rfl⟩

/-- **`decode` inverts the encoder's body**: it accepts exactly the payloads of messages of its
    type, answers the message they came from, and refuses everything else. -/
theorem decode_ok_iff {ty : UInt8} {payload : List UInt8} (hlen : payload.length < wordSize)
    (m : Message) :
    decode ty payload = .ok m ↔ m.ty = ty ∧ m.Fits ∧ payload = m.payload := by
  have hv : readerInput.valid ⟨payload, 0⟩ := ⟨Nat.zero_le _, hlen⟩
  unfold decode
  constructor
  · intro h
    cases hb : decodeBody ty ⟨payload, 0⟩ with
    | error e =>
        simp only [hb, Bind.bind, Except.bind] at h
        cases h
    | ok q =>
        obtain ⟨m', r⟩ := q
        obtain ⟨⟨hty, hfit⟩, hr, hv'⟩ := (decodeBody_reads ty).spells _ m' r hv hb
        simp only [hb, Bind.bind, Except.bind] at h
        by_cases hd : r.pos = r.buf.length
        · simp only [Reader.done, if_pos hd, Pure.pure, Except.pure] at h
          cases h
          refine ⟨hty, hfit, ?_⟩
          have hrest : readerInput.rest r = [] := by
            show r.buf.drop r.pos = []
            rw [hd, List.drop_length]
          rw [hrest, List.append_nil] at hr
          exact hr
        · simp only [Reader.done, if_neg hd] at h
          cases h
  · rintro ⟨hty, hfit, rfl⟩
    obtain ⟨r, hb, hr, hv'⟩ := (decodeBody_reads ty).accepts ⟨m.payload, 0⟩ m [] hv ⟨hty, hfit⟩
      (by simp [readerInput])
    have hd : r.pos = r.buf.length := by
      have := congrArg List.length hr
      simp only [readerInput, List.length_drop, List.length_nil] at this
      have := hv'.1
      omega
    simp only [hb, Bind.bind, Except.bind, Reader.done, if_pos hd]
    rfl

/-- Where `decode` does not accept, it refuses with `InvalidData`: no panic, no other error. -/
theorem decode_refuses {ty : UInt8} {payload : List UInt8} (hlen : payload.length < wordSize)
    {f : Fault} (h : decode ty payload = .error f) : ∃ text, f = bad text := by
  have hv : readerInput.valid ⟨payload, 0⟩ := ⟨Nat.zero_le _, hlen⟩
  unfold decode at h
  cases hb : decodeBody ty ⟨payload, 0⟩ with
  | error e =>
      simp only [hb, Bind.bind, Except.bind] at h
      cases h
      exact (decodeBody_reads ty).refuses _ f hv hb
  | ok q =>
      obtain ⟨m, r⟩ := q
      simp only [hb, Bind.bind, Except.bind] at h
      by_cases hd : r.pos = r.buf.length
      · simp only [Reader.done, if_pos hd] at h
        cases h
      · simp only [Reader.done, if_neg hd] at h
        cases h
        exact ⟨_, rfl⟩

/-! ## 5. What fits a frame fits its fields -/

theorem length_strImage (s : String) : (strImage s).length = 4 + (strBytes s).length := by
  simp [strImage, u32Bytes]

theorem length_regionImage (d : RegionDesc) :
    (regionImage d).length = 28 + (strBytes d.name).length + (strBytes d.elemType).length := by
  simp only [regionImage, List.length_append, length_strImage, u32Bytes, u64Bytes, length_leBytes]
  omega

theorem length_tupleImage (t : TupleDesc) : (tupleImage t).length = 24 := by
  simp [tupleImage, u32Bytes, u64Bytes]

theorem length_image_le {α : Type} (image : α → List UInt8) {x : α} {xs : List α} (h : x ∈ xs) :
    (image x).length ≤ (xs.flatMap image).length := by
  induction xs with
  | nil => cases h
  | cons y ys ih =>
      rw [List.flatMap_cons, List.length_append]
      rcases List.mem_cons.mp h with rfl | h
      · omega
      · have := ih h
        omega

theorem length_le_images {α : Type} {image : α → List UInt8} {c : Nat} {xs : List α}
    (h : ∀ x ∈ xs, c ≤ (image x).length) : c * xs.length ≤ (xs.flatMap image).length := by
  induction xs with
  | nil => simp
  | cons x xs ih =>
      have h1 := h x List.mem_cons_self
      have h2 := ih fun y hy => h y (List.mem_cons_of_mem _ hy)
      rw [List.flatMap_cons, List.length_append, List.length_cons, Nat.mul_succ]
      omega

/-- A message whose payload is shorter than `2 ^ 32` has counts and lengths below it. -/
theorem fits_of_payload {m : Message} (h : m.payload.length < 2 ^ 32) : m.Fits := by
  cases m with
  | metadata rs =>
      rw [metadata_payload, List.length_append] at h
      have hc : 28 * rs.length ≤ (rs.flatMap regionImage).length :=
        length_le_images fun d _ => by rw [length_regionImage]; omega
      refine ⟨by omega, fun d hd => ?_⟩
      have hd' := length_image_le regionImage hd
      rw [length_regionImage] at hd'
      exact ⟨show _ < _ by omega, show _ < _ by omega⟩
  | tuples g ts =>
      rw [tuples_payload, List.length_append, List.length_append] at h
      have hc : 24 * ts.length ≤ (ts.flatMap tupleImage).length :=
        length_le_images fun t _ => by rw [length_tupleImage]
      show ts.length < 2 ^ 32
      omega
  | hello v => trivial
  | welcome v => trivial
  | wantGroup g => trivial
  | update => trivial

/-! ## 6. Frames -/

/-- The value of a stream's length field, its first four bytes. -/
def lengthField (s : List UInt8) : Nat := (UInt32.ofNat (leValue (s.take 4))).toNat

/-- The error of a stream that ends too early. -/
def eof : Fault := .err ⟨.unexpectedEof, "failed to fill whole buffer"⟩

/-- One step of a stream computation: a failure keeps the stream where it stopped. -/
theorem stream_bind {σ α β : Type} (x : ExceptT Fault (StateM σ) α)
    (f : α → ExceptT Fault (StateM σ) β) (s : σ) :
    (x >>= f) s = match x s with
      | (.ok a, s') => f a s'
      | (.error e, s') => (.error e, s') := by
  simp only [Bind.bind, ExceptT.bind, ExceptT.mk, StateT.bind]
  rcases x s with ⟨r, s'⟩
  cases r <;> rfl

theorem readExact_run (n : Nat) (s : List UInt8) :
    (readExact n : ExceptT Fault (StateM (List UInt8)) (List UInt8)) s =
      if n ≤ s.length then (.ok (s.take n), s.drop n) else (.error eof, []) := by
  simp only [readExact, Read.readExact]
  split_ifs with h <;> rfl

/-- `read_frame` on a stream without a whole header. -/
theorem readFrame_short {s : List UInt8} (h : s.length < 5) :
    (readFrame : ExceptT Fault (StateM (List UInt8)) Message) s = (.error eof, []) := by
  unfold readFrame
  rw [stream_bind, readExact_run, if_neg (by omega)]

/-- **`read_frame` behind a whole header.** -/
theorem readFrame_header (b0 b1 b2 b3 ty : UInt8) (rest : List UInt8) :
    (readFrame : ExceptT Fault (StateM (List UInt8)) Message) (b0 :: b1 :: b2 :: b3 :: ty :: rest) =
      let len := lengthField [b0, b1, b2, b3]
      if len = 0 ∨ len > MAX_FRAME then (.error (bad s!"frame length {len} is out of range"), rest)
      else if len - 1 ≤ rest.length then (decode ty (rest.take (len - 1)), rest.drop (len - 1))
      else (.error eof, []) := by
  unfold readFrame
  rw [stream_bind, readExact_run, if_pos (by simp)]
  have hl : (UInt32.ofNat (leValue ((b0 :: b1 :: b2 :: b3 :: ty :: rest).take 5 |>.take 4))).toNat =
      lengthField [b0, b1, b2, b3] := rfl
  simp only [hl]
  split_ifs with hlen hrest
  · rfl
  · show (readExact _ >>= _ : ExceptT Fault (StateM (List UInt8)) Message) rest = _
    rw [stream_bind, readExact_run, if_pos hrest]
    show (liftM (decode ty _) : ExceptT Fault (StateM (List UInt8)) Message) _ = _
    cases decode ty (rest.take (lengthField [b0, b1, b2, b3] - 1)) <;> rfl
  · show (readExact _ >>= _ : ExceptT Fault (StateM (List UInt8)) Message) rest = _
    rw [stream_bind, readExact_run, if_neg hrest]

theorem MAX_FRAME_eq : MAX_FRAME = 1048576 := rfl

/-- The image of a message: length field, type byte, payload. -/
theorem encode_eq (m : Message) :
    m.encode = u32Bytes (1 + UInt32.ofNat m.payload.length) ++ (m.ty :: m.payload) := by
  show putU32 [] _ ++ [m.ty] ++ m.payload = _
  rw [putU32, List.nil_append, List.append_assoc]
  rfl

/-- The message fits the frame cap: `1 + payload length` is at most `MAX_FRAME`. -/
def Message.Capped (m : Message) : Prop := 1 + m.payload.length ≤ MAX_FRAME

theorem capped_length {m : Message} (h : m.Capped) :
    (1 + UInt32.ofNat m.payload.length).toNat = 1 + m.payload.length := by
  unfold Message.Capped at h
  rw [MAX_FRAME_eq] at h
  rw [UInt32.toNat_add, UInt32.toNat_ofNat_of_lt' (by show _ < 2 ^ 32; omega)]
  show (1 + m.payload.length) % 2 ^ 32 = _
  omega

/-- **One frame**: an encoded message within the cap is read back, and what follows stays. -/
theorem readFrame_encode {m : Message} (h : m.Capped) (tail : List UInt8) :
    (readFrame : ExceptT Fault (StateM (List UInt8)) Message) (m.encode ++ tail) = (.ok m, tail) := by
  have hlen := capped_length h
  have hcap := h
  unfold Message.Capped at hcap
  rw [MAX_FRAME_eq] at hcap
  obtain ⟨b0, b1, b2, b3, hb⟩ : ∃ b0 b1 b2 b3,
      u32Bytes (1 + UInt32.ofNat m.payload.length) = [b0, b1, b2, b3] := ⟨_, _, _, _, rfl⟩
  have hfield : lengthField [b0, b1, b2, b3] = 1 + m.payload.length := by
    rw [← hb, ← hlen]
    show (UInt32.ofNat (leValue ((u32Bytes _).take 4))).toNat = _
    rw [List.take_of_length_le (by simp [u32Bytes]), u32Bytes, leValue_leBytes_u32]
  rw [encode_eq, hb]
  show (readFrame : ExceptT Fault (StateM (List UInt8)) Message)
    (b0 :: b1 :: b2 :: b3 :: m.ty :: (m.payload ++ tail)) = _
  rw [readFrame_header]
  simp only [hfield]
  rw [if_neg (by rw [MAX_FRAME_eq]; omega), if_pos (by simp)]
  have hd : decode m.ty m.payload = .ok m :=
    (decode_ok_iff (by unfold wordSize; omega) m).mpr ⟨rfl, fits_of_payload (by omega), rfl⟩
  simp [hd]

/-! ## 7. Messages in a row -/

/-- The messages, written in order to an empty stream. -/
def writeFrames (ms : List Message) : List UInt8 := ms.foldl writeFrame []

/-- `read_frame`, called `n` times. -/
def readFrames {σ : Type} [Read σ] : Nat → ExceptT Fault (StateM σ) (List Message)
  | 0 => return []
  | n + 1 => do
    let m ← readFrame
    let ms ← readFrames n
    return m :: ms

theorem writeFrames_eq (ms : List Message) : writeFrames ms = ms.flatMap Message.encode :=
  foldl_image (fun _ _ => rfl) ms []

/-- **Round trip**: messages within the cap, written in order, are read back in order, and the
    bytes behind them stay unread. -/
theorem readFrames_writeFrames (ms : List Message) (tail : List UInt8)
    (h : ∀ m ∈ ms, 1 + m.payload.length ≤ MAX_FRAME) :
    (readFrames ms.length : ExceptT Fault (StateM (List UInt8)) (List Message))
      (writeFrames ms ++ tail) = (.ok ms, tail) := by
  rw [writeFrames_eq]
  induction ms with
  | nil => rfl
  | cons m ms ih =>
      have ih := ih fun x hx => h x (List.mem_cons_of_mem _ hx)
      rw [List.flatMap_cons, List.append_assoc, List.length_cons, readFrames, stream_bind,
        readFrame_encode (h m List.mem_cons_self)]
      simp only
      rw [stream_bind, ih]
      rfl

/-- Two regions with names, then an update request, then garbage. -/
theorem readFrames_two :
    (readFrames 2 : ExceptT Fault (StateM (List UInt8)) (List Message))
      (writeFrames [.metadata [⟨0, "heap", 4096, 1, 1, "u8"⟩, ⟨1, "", 12, 16, 8, "app"⟩], .update] ++
        [255, 0]) =
      (.ok [.metadata [⟨0, "heap", 4096, 1, 1, "u8"⟩, ⟨1, "", 12, 16, 8, "app"⟩], .update],
        [255, 0]) :=
  readFrames_writeFrames [.metadata [⟨0, "heap", 4096, 1, 1, "u8"⟩, ⟨1, "", 12, 16, 8, "app"⟩],
    .update] [255, 0] (by decide +kernel)

/-! ## 8. What is not an encoded message -/

/-- The kind of error a result ends with. -/
def errorKind : Except Fault Message → Option ErrorKind
  | .error (.err e) => some e.kind
  | _ => none

/-- A stream with a whole header, taken apart. -/
theorem five_le {s : List UInt8} (h : 5 ≤ s.length) :
    ∃ b0 b1 b2 b3 ty rest, s = b0 :: b1 :: b2 :: b3 :: ty :: rest := by
  match s, h with
  | b0 :: b1 :: b2 :: b3 :: ty :: rest, _ => exact ⟨b0, b1, b2, b3, ty, rest, rfl⟩

/-- The stream promises a frame within the cap and ends before it. -/
def CutShort (s : List UInt8) : Prop :=
  s.length < 5 ∨ (1 ≤ lengthField s ∧ lengthField s ≤ MAX_FRAME ∧ s.length < 4 + lengthField s)

/-- **What `read_frame` answers on any stream**, by the length of the stream, its length field
    and the decoder. -/
theorem readFrame_cases (s : List UInt8) :
    (CutShort s ∧ (readFrame s).1 = .error eof) ∨
    (¬ CutShort s ∧ ∃ text, (readFrame s).1 = .error (bad text)) ∨
    (¬ CutShort s ∧ ∃ m rest, readFrame s = (.ok m, rest) ∧ s = m.encode ++ rest ∧
      lengthField m.encode ≤ MAX_FRAME) := by
  by_cases h5 : s.length < 5
  · left
    rw [readFrame_short h5]
    exact ⟨Or.inl h5, rfl⟩
  obtain ⟨b0, b1, b2, b3, ty, rest, rfl⟩ := five_le (Nat.le_of_not_lt h5)
  have hfield : lengthField (b0 :: b1 :: b2 :: b3 :: ty :: rest) = lengthField [b0, b1, b2, b3] :=
    rfl
  rw [readFrame_header]
  unfold CutShort
  rw [hfield]
  generalize hl : lengthField [b0, b1, b2, b3] = len
  have hlen : (b0 :: b1 :: b2 :: b3 :: ty :: rest).length = rest.length + 5 := rfl
  rw [hlen]
  simp only
  split_ifs with hr hle
  · right
    left
    exact ⟨by omega, _, rfl⟩
  · right
    have hshort : ¬ (rest.length + 5 < 5 ∨ 1 ≤ len ∧ len ≤ MAX_FRAME ∧ rest.length + 5 < 4 + len) := by
      omega
    have hplen : (rest.take (len - 1)).length = len - 1 := by simp; omega
    have hword : (rest.take (len - 1)).length < wordSize := by
      rw [hplen]
      rw [MAX_FRAME_eq] at hr
      unfold wordSize
      omega
    cases hd : decode ty (rest.take (len - 1)) with
    | error f =>
        left
        obtain ⟨text, rfl⟩ := decode_refuses hword hd
        exact ⟨hshort, text, rfl⟩
    | ok m =>
        right
        obtain ⟨hty, _, hp⟩ := (decode_ok_iff hword m).mp hd
        refine ⟨hshort, m, _, rfl, ?_⟩
        -- the length field spells the payload read, so the header is the encoder's
        have hcount : UInt32.ofNat (leValue [b0, b1, b2, b3]) = 1 + UInt32.ofNat m.payload.length := by
          apply UInt32.toNat_inj.mp
          have hcap : m.Capped := by
            show 1 + m.payload.length ≤ MAX_FRAME
            rw [← hp, hplen]
            omega
          rw [capped_length hcap, ← hp, hplen]
          show lengthField [b0, b1, b2, b3] = _
          omega
        have hhead : u32Bytes (1 + UInt32.ofNat m.payload.length) = [b0, b1, b2, b3] := by
          rw [← hcount]
          exact leBytes_leValue_u32 rfl
        rw [encode_eq, hhead, hty, ← hp]
        refine ⟨by simp, ?_⟩
        show lengthField [b0, b1, b2, b3] ≤ MAX_FRAME
        omega
  · left
    exact ⟨by omega, rfl⟩

/-- An encoded message within the cap has its own length in its length field. -/
theorem lengthField_encode {m : Message} (h : m.Capped) (k : Nat) (hk : 4 ≤ k) :
    lengthField (m.encode.take k) = 1 + m.payload.length := by
  rw [← capped_length h, encode_eq]
  unfold lengthField
  rw [List.take_take, Nat.min_eq_left hk, List.take_append_of_le_length (by simp [u32Bytes]),
    List.take_of_length_le (by simp [u32Bytes]), u32Bytes, leValue_leBytes_u32]

/-- A strict prefix of an encoded message within the cap was cut short. -/
theorem prefix_cutShort {m : Message} (hcap : m.Capped) {s : List UInt8} (hpre : s <+: m.encode)
    (hne : s ≠ m.encode) : CutShort s := by
  have hlt : s.length < m.encode.length := by
    rcases Nat.lt_or_eq_of_le hpre.length_le with h | h
    · exact h
    · exact absurd (hpre.eq_of_length h) hne
  have hlen : m.encode.length = 5 + m.payload.length := by
    rw [encode_eq]
    simp [u32Bytes]
    omega
  have hcap' : 1 + m.payload.length ≤ MAX_FRAME := hcap
  by_cases h5 : s.length < 5
  · exact Or.inl h5
  · -- it shows its length field, which is the length of the whole message
    right
    have hfield := lengthField_encode hcap s.length (by omega)
    rw [← List.prefix_iff_eq_take.mp hpre] at hfield
    rw [hfield]
    omega

/-- `UnexpectedEof` is answered to a stream that was cut short, and to no other. -/
theorem eof_iff_cutShort (s : List UInt8) :
    errorKind (readFrame s).1 = some .unexpectedEof ↔ CutShort s := by
  rcases readFrame_cases s with ⟨hc, hr⟩ | ⟨hc, text, hr⟩ | ⟨hc, m, rest, hr, _⟩
  · simp [hr, hc, errorKind, eof]
  · simp [hr, hc, errorKind, bad]
  · simp [hr, hc, errorKind]

/-- **`read_frame` accepts exactly the image of the encoder and classifies everything else**:
    a stream that starts with the image of a message within the cap is answered by this message,
    and no other stream is accepted (so no second byte string decodes to it); the stream was cut
    short iff the answer is `UnexpectedEof`, as is every strict prefix of an encoded message within
    the cap; every other stream is `InvalidData`. -/
theorem readFrame_exact (s : List UInt8) :
    (∀ (m : Message) (rest : List UInt8), 1 + m.payload.length ≤ MAX_FRAME → s = m.encode ++ rest →
      readFrame s = (.ok m, rest)) ∧
    (∀ m rest, readFrame s = (.ok m, rest) →
      s = m.encode ++ rest ∧ lengthField m.encode ≤ MAX_FRAME) ∧
    (errorKind (readFrame s).1 = some .unexpectedEof ↔
      s.length < 5 ∨
        (1 ≤ lengthField s ∧ lengthField s ≤ MAX_FRAME ∧ s.length < 4 + lengthField s)) ∧
    ((∃ m, (readFrame s).1 = .ok m) ∨ errorKind (readFrame s).1 = some .unexpectedEof ∨
      errorKind (readFrame s).1 = some .invalidData) ∧
    (∀ m : Message, 1 + m.payload.length ≤ MAX_FRAME → s <+: m.encode → s ≠ m.encode →
      errorKind (readFrame s).1 = some .unexpectedEof) := by
  refine ⟨fun m rest hcap hs => ?_, fun m rest h => ?_, eof_iff_cutShort s, ?_,
    fun m hcap hpre hne => (eof_iff_cutShort s).mpr (prefix_cutShort hcap hpre hne)⟩
  · rw [hs]
    exact readFrame_encode hcap rest
  · rcases readFrame_cases s with ⟨_, hr⟩ | ⟨_, text, hr⟩ | ⟨_, m', rest', hr, hs⟩
    · rw [h] at hr
      cases hr
    · rw [h] at hr
      cases hr
    · rw [h] at hr
      cases hr
      exact hs
  · rcases readFrame_cases s with ⟨_, hr⟩ | ⟨_, text, hr⟩ | ⟨_, m', rest', hr, _⟩
    · exact Or.inr (Or.inl (by rw [hr]; rfl))
    · exact Or.inr (Or.inr (by rw [hr]; rfl))
    · exact Or.inl ⟨m', by rw [hr]⟩

end Rdmalib
