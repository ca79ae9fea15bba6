import EnvDiscovery.Resolution.Cache

/-!
**What the identity of a file tells.**

The bytes that identify a file are those of its path, eight for its size, and for each of its two
times twelve, or a single zero if the time is unknown: missing, or before 1970. Nothing marks where
a part ends, so the bytes tell two files apart as long as the same times of them are known. A file
of which only the change is known and one of which only the modification is known may have the same
bytes, which one of them reads from one byte further on. Where more times are known of one file than
of the other, its size and its times would have to lie in the path of the other.

Main definitions:
* `Resolution.known?` — the time that the bytes tell of;
* `Resolution.stamp` — the twelve bytes of a known time, as one number;
* `FileStat.Fits` — the times are within the range of their bytes.

Main results:
* `Text.bytes_inj`, `Resolution.bigEndian_inj` — texts and numbers are told apart by their bytes;
* `Resolution.bigEndian_append` — numbers written one after the other are one number;
* `Resolution.identity_tells_files_apart` — **equal bytes mean equal files if the same times are
  known**, and what they mean otherwise.
-/

namespace EnvDiscovery

/-! ### Bytes of texts -/

namespace Text

theorem toList_loop (bs : ByteArray) (i : Nat) (done : List UInt8) :
    ByteArray.toList.loop bs i done = done.reverse ++ bs.data.toList.drop i := by
  fun_induction ByteArray.toList.loop bs i done with
  | case1 i done h ih =>
      have hi : i < bs.data.toList.length := h
      have hget : bs.data.toList.drop i = bs.get! i :: bs.data.toList.drop (i + 1) := by
        rw [List.drop_eq_getElem_cons hi]
        simp [ByteArray.get!, h]
      rw [ih, hget, List.reverse_cons, List.append_assoc, List.singleton_append]
  | case2 i done h =>
      rw [List.drop_eq_nil_of_le (Nat.le_of_not_lt h), List.append_nil]

/-- Texts are told apart by their bytes. -/
theorem bytes_inj {s t : String} : bytes s = bytes t ↔ s = t := by
  rw [bytes, bytes, ByteArray.toList, ByteArray.toList, toList_loop, toList_loop]
  simp only [List.reverse_nil, List.nil_append, List.drop_zero, Array.toList_inj]
  exact ⟨fun h => String.toByteArray_inj.1 (ByteArray.ext h), fun h => h ▸ rfl⟩

end Text

namespace Resolution

/-! ### Bytes of numbers -/

@[simp] theorem length_bigEndian (width n : Nat) : (bigEndian width n).length = width := by
  simp [bigEndian]

theorem ofNat_inj {m n : Nat} : UInt8.ofNat m = UInt8.ofNat n ↔ m % 256 = n % 256 := by
  rw [← UInt8.toNat_inj, UInt8.toNat_ofNat', UInt8.toNat_ofNat']

/-- The last byte of a number. -/
theorem bigEndian_concat (width n : Nat) :
    bigEndian (width + 1) n = bigEndian width (n / 256) ++ [UInt8.ofNat n] := by
  rw [bigEndian, List.range_succ, List.map_append, bigEndian]
  congr 1
  · refine List.map_congr_left fun i hi => congrArg UInt8.ofNat ?_
    have hi : i < width := List.mem_range.1 hi
    obtain ⟨k, rfl⟩ : ∃ k, width = i + k + 1 := ⟨width - i - 1, by omega⟩
    rw [show i + k + 1 + 1 - 1 - i = k + 1 by omega, show i + k + 1 - 1 - i = k by omega,
      Nat.div_div_eq_div_mul]
    exact congrArg (n / ·) (Nat.mul_comm ..)
  · simp

/-- The first byte of a number. -/
theorem bigEndian_cons (width n : Nat) :
    bigEndian (width + 1) n = UInt8.ofNat (n / Nat.pow 256 width) :: bigEndian width n := by
  rw [bigEndian, List.range_succ_eq_map, List.map_cons, List.map_map, bigEndian]
  congr 1
  refine List.map_congr_left fun i _ => congrArg (fun k => UInt8.ofNat (n / Nat.pow 256 k)) ?_
  change width + 1 - 1 - (i + 1) = width - 1 - i
  omega

/-- Numbers are told apart by their bytes, if there are enough of them. -/
theorem bigEndian_inj {width m n : Nat} (hm : m < Nat.pow 256 width) (hn : n < Nat.pow 256 width) :
    bigEndian width m = bigEndian width n ↔ m = n := by
  refine ⟨fun h => ?_, fun h => h ▸ rfl⟩
  induction width generalizing m n with
  | zero =>
      change m < 1 at hm
      change n < 1 at hn
      omega
  | succ width ih =>
      change m < Nat.pow 256 width * 256 at hm
      change n < Nat.pow 256 width * 256 at hn
      rw [bigEndian_concat, bigEndian_concat] at h
      obtain ⟨hfront, hlast⟩ := List.append_inj' h rfl
      have hquotient : m / 256 = n / 256 :=
        ih (Nat.div_lt_of_lt_mul (Nat.mul_comm .. ▸ hm))
          (Nat.div_lt_of_lt_mul (Nat.mul_comm .. ▸ hn)) hfront
      have hremainder : m % 256 = n % 256 := ofNat_inj.1 (List.singleton_inj.1 hlast)
      omega

/-- **Numbers written one after the other are one number.** -/
theorem bigEndian_append (width m : Nat) {width' n : Nat} (hn : n < Nat.pow 256 width') :
    bigEndian width m ++ bigEndian width' n =
      bigEndian (width + width') (m * Nat.pow 256 width' + n) := by
  induction width' generalizing n with
  | zero =>
      obtain rfl : n = 0 := Nat.lt_one_iff.1 hn
      rw [show m * Nat.pow 256 0 + 0 = m from Nat.mul_one m]
      exact List.append_nil _
  | succ width' ih =>
      change n < Nat.pow 256 width' * 256 at hn
      have hquotient : n / 256 < Nat.pow 256 width' := Nat.div_lt_of_lt_mul (Nat.mul_comm .. ▸ hn)
      have hsplit : m * Nat.pow 256 (width' + 1) + n = n + 256 * (m * Nat.pow 256 width') := by
        change m * (Nat.pow 256 width' * 256) + n = _
        rw [← Nat.mul_assoc, Nat.mul_comm _ 256, Nat.add_comm]
      rw [bigEndian_concat, ← List.append_assoc, ih hquotient, ← Nat.add_assoc,
        bigEndian_concat, hsplit, Nat.add_mul_div_left _ _ (by decide), Nat.add_comm (n / 256)]
      congr 2
      exact ofNat_inj.2 (Nat.add_mul_mod_self_left ..).symm

/-! ### Bytes of times -/

/-- The time that the bytes tell of: one that is missing or lies before 1970 is unknown. -/
def known? (t : Option Timestamp) : Option Timestamp :=
  t.filter (!·.isBeforeEpoch)

/-- A known time as one number: the nanoseconds are its last four bytes. -/
def stamp (t : Timestamp) : Nat :=
  t.secs.toNat * UInt32.size + t.nanos

end Resolution

/-- The seconds of a time have 64 bits at most, and its nanoseconds 32. -/
def Timestamp.Fits (t : Timestamp) : Prop :=
  t.secs < UInt64.size ∧ t.nanos < UInt32.size

/-- The times of a file are within the range of their bytes. -/
def FileStat.Fits (st : FileStat) : Prop :=
  (∀ t ∈ st.mtime, t.Fits) ∧ ∀ t ∈ st.ctime, t.Fits

/-- How many times of a file are known. -/
def FileStat.knownTimes (st : FileStat) : Nat :=
  (Resolution.known? st.mtime).isSome.toNat + (Resolution.known? st.ctime).isSome.toNat

namespace Resolution

variable {o o' : Option Timestamp} {t t' : Timestamp}

theorem known?_eq_some_iff : known? o = some t ↔ o = some t ∧ 0 ≤ t.secs := by
  rw [known?, Option.filter_eq_some_iff]
  simp [Timestamp.isBeforeEpoch]

theorem stamp_lt (h : t.Fits) : stamp t < Nat.pow 256 12 := by
  obtain ⟨hsecs, hnanos⟩ := h
  have hpow : Nat.pow 256 12 = 79228162514264337593543950336 := by decide
  simp only [UInt64.size, UInt32.size] at hsecs hnanos
  rw [hpow, stamp, UInt32.size]
  omega

theorem stamp_inj (h : t.Fits) (h' : t'.Fits) (hsecs : 0 ≤ t.secs) (hsecs' : 0 ≤ t'.secs) :
    stamp t = stamp t' ↔ t = t' := by
  refine ⟨fun heq => ?_, fun heq => heq ▸ rfl⟩
  obtain ⟨secs, nanos⟩ := t
  obtain ⟨secs', nanos'⟩ := t'
  obtain ⟨-, hnanos⟩ := h
  obtain ⟨-, hnanos'⟩ := h'
  simp only [stamp, UInt32.size] at heq hnanos hnanos' hsecs hsecs'
  obtain ⟨rfl, rfl⟩ : secs = secs' ∧ nanos = nanos' := by omega
  rfl

theorem timeBytes_of_none (h : known? o = none) : timeBytes o = [0] := by
  cases o with
  | none => rfl
  | some t =>
      have hbefore : t.isBeforeEpoch = true := by simpa [known?, Option.filter_eq_none_iff] using h
      rw [timeBytes, if_pos hbefore]

theorem timeBytes_of_some (h : known? o = some t) :
    timeBytes o = bigEndian 8 t.secs.toNat ++ bigEndian 4 t.nanos := by
  obtain ⟨rfl, hsecs⟩ := known?_eq_some_iff.1 h
  have hbefore : ¬t.isBeforeEpoch = true := by simpa [Timestamp.isBeforeEpoch] using hsecs
  rw [timeBytes, if_neg hbefore]

/-- The twelve bytes of a known time. -/
theorem timeBytes_eq_stamp (h : known? o = some t) (hfits : t.Fits) :
    timeBytes o = bigEndian 12 (stamp t) := by
  rw [timeBytes_of_some h, bigEndian_append 8 _ (hfits.2 : t.nanos < Nat.pow 256 4)]
  rfl

theorem length_timeBytes (o : Option Timestamp) :
    (timeBytes o).length = 1 + 11 * (known? o).isSome.toNat := by
  cases h : known? o with
  | none => simp [timeBytes_of_none h]
  | some t => simp [timeBytes_of_some h]

theorem timeBytes_inj (hknown : (known? o).isSome = (known? o').isSome) (h : ∀ t ∈ o, t.Fits)
    (h' : ∀ t ∈ o', t.Fits) :
    timeBytes o = timeBytes o' ↔ known? o = known? o' := by
  cases ht : known? o with
  | none =>
      have hnone : known? o' = none := by simpa [ht] using hknown.symm
      rw [timeBytes_of_none ht, timeBytes_of_none hnone, hnone]
      exact iff_of_true rfl rfl
  | some t =>
      obtain ⟨t', ht'⟩ : ∃ t', known? o' = some t' :=
        Option.isSome_iff_exists.1 (by rw [← hknown, ht]; rfl)
      obtain ⟨ho, hsecs⟩ := known?_eq_some_iff.1 ht
      obtain ⟨ho', hsecs'⟩ := known?_eq_some_iff.1 ht'
      rw [timeBytes_eq_stamp ht (h t ho), timeBytes_eq_stamp ht' (h' t' ho'), ht',
        bigEndian_inj (stamp_lt (h t ho)) (stamp_lt (h' t' ho')),
          stamp_inj (h t ho) (h' t' ho') hsecs hsecs',
        Option.some.injEq]

/-- The zero of an unknown time before the bytes of a known one, and after them: both are thirteen
bytes. -/
theorem timeBytes_slide {c m : Timestamp} {unknown unknown' : Option Timestamp}
    (hunknown : known? unknown = none) (hunknown' : known? unknown' = none) (hc : known? o = some c)
    (hm : known? o' = some m) (hcfits : c.Fits) (hmfits : m.Fits) :
    timeBytes unknown ++ timeBytes o = timeBytes o' ++ timeBytes unknown' ↔
      stamp c = 256 * stamp m := by
  have hpow : Nat.pow 256 13 = Nat.pow 256 12 * 256 := rfl
  have hzero : ([0] : List UInt8) = bigEndian 1 0 := rfl
  have hclt := stamp_lt hcfits
  have hmlt := stamp_lt hmfits
  rw [timeBytes_of_none hunknown, timeBytes_of_none hunknown', timeBytes_eq_stamp hc hcfits,
    timeBytes_eq_stamp hm hmfits, hzero, bigEndian_append 1 0 hclt,
      bigEndian_append 12 (stamp m) (by decide)]
  change bigEndian 13 _ = bigEndian 13 (stamp m * 256 + 0) ↔ _
  rw [bigEndian_inj (by omega) (by omega)]
  omega

/-! ### Whole identities -/

/-- The bytes after those of the path. -/
def statBytes (st : FileStat) : List UInt8 :=
  bigEndian 8 st.size.toNat ++ (timeBytes st.mtime ++ timeBytes st.ctime)

variable {p q : Path} {st st' : FileStat}

theorem identityBytes_eq (p : Path) (st : FileStat) :
    identityBytes p st = Text.bytes p.key ++ statBytes st := by
  simp [identityBytes, statBytes]

theorem length_statBytes (st : FileStat) : (statBytes st).length = 10 + 11 * st.knownTimes := by
  simp only [statBytes, List.length_append, length_bigEndian, length_timeBytes, FileStat.knownTimes]
  omega

/-- Where as many times are known, path and size are told apart. -/
theorem identityBytes_inj (h : st.knownTimes = st'.knownTimes) :
    identityBytes p st = identityBytes q st' ↔ p.key = q.key ∧ st.size = st'.size ∧
      timeBytes st.mtime ++ timeBytes st.ctime = timeBytes st'.mtime ++ timeBytes st'.ctime := by
  have hlength : (statBytes st).length = (statBytes st').length := by
    rw [length_statBytes, length_statBytes, h]
  have hsize : bigEndian 8 st.size.toNat = bigEndian 8 st'.size.toNat ↔ st.size = st'.size := by
    rw [bigEndian_inj st.size.toNat_lt st'.size.toNat_lt, UInt64.toNat_inj]
  rw [identityBytes_eq, identityBytes_eq]
  constructor
  · intro heq
    obtain ⟨hkey, hstat⟩ := List.append_inj' heq hlength
    obtain ⟨hbytes, htimes⟩ := List.append_inj hstat (by simp)
    exact ⟨Text.bytes_inj.1 hkey, hsize.1 hbytes, htimes⟩
  · rintro ⟨hkey, hbytes, htimes⟩
    rw [hkey, statBytes, statBytes, hsize.2 hbytes, htimes]

/-- Where more times are known of the second file, what is known of it begins in the path of the
first. -/
theorem exists_spill (hcount : st.knownTimes < st'.knownTimes)
    (h : identityBytes p st = identityBytes q st') :
    ∃ spill, 11 ≤ spill.length ∧ Text.bytes p.key = Text.bytes q.key ++ spill ∧
      statBytes st' = spill ++ statBytes st := by
  have hlength := length_statBytes st
  have hlength' := length_statBytes st'
  rw [identityBytes_eq, identityBytes_eq, List.append_eq_append_iff] at h
  rcases h with ⟨spill, -, hstat⟩ | ⟨spill, hkey, hstat⟩
  · rw [hstat, List.length_append] at hlength
    omega
  · refine ⟨spill, ?_, hkey, hstat⟩
    rw [hstat, List.length_append] at hlength'
    omega

theorem le_of_first_byte {n : Nat} (h : UInt8.ofNat (n / Nat.pow 256 7) ≠ 0) :
    Nat.pow 256 7 ≤ n := by
  rw [← Nat.not_lt]
  intro hlt
  rw [Nat.div_eq_of_lt hlt] at h
  exact h rfl

/-- The first byte of the size and the first byte of the modification lie in the path of the other
file. -/
theorem le_of_spill (hcount : st.knownTimes < st'.knownTimes) (hpath : 0 ∉ Text.bytes p.key)
    (h : identityBytes p st = identityBytes q st') :
    Nat.pow 256 7 ≤ st'.size.toNat ∧ ∃ m, known? st'.mtime = some m ∧
    Nat.pow 256 7 ≤ m.secs.toNat := by
  obtain ⟨spill, hlength, hkey, hstat⟩ := exists_spill hcount h
  have hbyte : ∀ {i b}, i < 11 → (statBytes st')[i]? = some b → b ≠ 0 := by
    rintro i b hi hb rfl
    rw [hstat, List.getElem?_append_left (by omega)] at hb
    exact hpath (hkey ▸ List.mem_append_right _ (List.mem_of_getElem? hb))
  have htime : (statBytes st')[8]? = (timeBytes st'.mtime ++ timeBytes st'.ctime)[0]? := by
    rw [statBytes, List.getElem?_append_right (by simp)]
    simp
  constructor
  · refine le_of_first_byte (hbyte (i := 0) (by decide) ?_)
    rw [statBytes, bigEndian_cons]
    rfl
  · cases hm : known? st'.mtime with
    | none =>
        refine absurd rfl (hbyte (i := 8) (b := 0) (by decide) ?_)
        rw [htime, timeBytes_of_none hm]
        rfl
    | some m =>
        refine ⟨m, rfl, le_of_first_byte (hbyte (i := 8) (by decide) ?_)⟩
        rw [htime, timeBytes_of_some hm, bigEndian_cons]
        rfl

/-- **Equal bytes mean equal files if the same times are known.** If only the change is known of the
one and only the modification of the other, they mean the same path and size and one time read from
one byte further on. If more times are known of the one, they need a size of at least 2⁵⁶ bytes and
a modification at least 2⁵⁶ seconds after 1970. -/
theorem identity_tells_files_apart (p q : Path) (st st' : FileStat) (hst : st.Fits)
    (hst' : st'.Fits) :
    ((known? st.mtime).isSome = (known? st'.mtime).isSome →
      (known? st.ctime).isSome = (known? st'.ctime).isSome →
      (identityBytes p st = identityBytes q st' ↔ p.key = q.key ∧ st.size = st'.size ∧
        known? st.mtime = known? st'.mtime ∧ known? st.ctime = known? st'.ctime)) ∧
    (∀ c m, known? st.mtime = none → known? st.ctime = some c → known? st'.mtime = some m →
      known? st'.ctime = none →
      (identityBytes p st = identityBytes q st' ↔ p.key = q.key ∧ st.size = st'.size ∧
        stamp c = 256 * stamp m)) ∧
    (st.knownTimes < st'.knownTimes → 0 ∉ Text.bytes p.key →
      identityBytes p st = identityBytes q st' →
      Nat.pow 256 7 ≤ st'.size.toNat ∧ ∃ m, known? st'.mtime = some m ∧
      Nat.pow 256 7 ≤ m.secs.toNat) := by
  refine ⟨?_, ?_, le_of_spill⟩
  · intro hmtime hctime
    have hcount : st.knownTimes = st'.knownTimes := by
      rw [FileStat.knownTimes, FileStat.knownTimes, hmtime, hctime]
    have hlength : (timeBytes st.mtime).length = (timeBytes st'.mtime).length := by
      rw [length_timeBytes, length_timeBytes, hmtime]
    rw [identityBytes_inj hcount, ← timeBytes_inj hmtime hst.1 hst'.1,
      ← timeBytes_inj hctime hst.2 hst'.2]
    refine and_congr_right fun _ => and_congr_right fun _ =>
      ⟨fun h => List.append_inj h hlength, ?_⟩
    rintro ⟨hm, hc⟩
    rw [hm, hc]
  · intro c m hmtime hctime hmtime' hctime'
    have hcount : st.knownTimes = st'.knownTimes := by
      rw [FileStat.knownTimes, FileStat.knownTimes, hmtime, hctime, hmtime', hctime']
      rfl
    have hc : c.Fits := hst.2 c (known?_eq_some_iff.1 hctime).1
    have hm : m.Fits := hst'.1 m (known?_eq_some_iff.1 hmtime').1
    rw [identityBytes_inj hcount, timeBytes_slide hmtime hctime' hctime hmtime' hc hm]

/-- A file of one byte with the given times of its modification and its change. -/
def fileOf (mtime ctime : Option Timestamp) : FileStat :=
  ⟨1, mtime, ctime, false, false⟩

/-- A change in 2023 and a modification in 1970. -/
theorem identity_tells_files_apart_slid :
    let p : Path := ⟨"/usr/bin/python3"⟩
    let st := fileOf none (some ⟨1700000000, 512⟩)
    let st' := fileOf (some ⟨6640625, 2⟩) none
    (st.Fits ∧ st'.Fits) ∧ identityBytes p st = identityBytes p st' := by
  intro p st st'
  have hst : st.Fits := by
    simp [st, fileOf, FileStat.Fits, Timestamp.Fits, UInt64.size, UInt32.size]
  have hst' : st'.Fits := by
    simp [st', fileOf, FileStat.Fits, Timestamp.Fits, UInt64.size, UInt32.size]
  have hslid := (identity_tells_files_apart p p st st' hst hst').2.1 ⟨1700000000, 512⟩ ⟨6640625, 2⟩
    (by decide)
    (by decide) (by decide) (by decide)
  exact ⟨⟨hst, hst'⟩, hslid.2 ⟨rfl, rfl, by decide⟩⟩

/-- Two files of the same bytes: one that was changed in 2023 and one that was modified in 1970, and
two that were modified at different times before 1970. -/
theorem different_times_same_identity :
    let p : Path := ⟨"/usr/bin/python3"⟩
    let changed := fileOf none (some ⟨1700000000, 0⟩)
    let modified := fileOf (some ⟨6640625, 0⟩) none
    let early := fileOf (some ⟨-1, 0⟩) (some ⟨1700000000, 0⟩)
    let earlier := fileOf (some ⟨-2, 0⟩) (some ⟨1700000000, 0⟩)
    (changed.mtime ≠ modified.mtime ∧ changed.ctime ≠ modified.ctime ∧
        identityBytes p changed = identityBytes p modified) ∧
      early.mtime ≠ earlier.mtime ∧ identityBytes p early = identityBytes p earlier := by
  intro p changed modified early earlier
  have hslid : statBytes changed = statBytes modified := by decide
  refine ⟨⟨by decide, by decide, ?_⟩, by decide, rfl⟩
  rw [identityBytes_eq, identityBytes_eq, hslid]

end Resolution

end EnvDiscovery
