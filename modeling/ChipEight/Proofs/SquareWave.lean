import ChipEight.RunLength
import ChipEight.Tone
import Mathlib.Data.List.Chain
import Mathlib.Data.List.Range
import Mathlib.Tactic.SplitIfs

/-!
# The square wave

A tone is a wave of equal half periods, up and down in turn. Frame by frame every channel
has the sample of the frame, so in the bytes of the tone the runs of equal samples are as
long as half a period of all channels, but for the last, which takes what is left.
-/

namespace ChipEight

namespace RunLength

variable {α : Type}

/-- Whether runs are as long as they can be: none is empty, and neighbours differ. -/
structure Maximal (runs : List (α × Nat)) : Prop where
  pos : ∀ run ∈ runs, 0 < run.2
  ne : runs.IsChain fun run next => run.1 ≠ next.1

theorem Maximal.tail {run : α × Nat} {runs : List (α × Nat)} (h : Maximal (run :: runs)) :
    Maximal runs where
  pos r hr := h.pos r (List.mem_cons_of_mem run hr)
  ne := h.ne.tail

variable [DecidableEq α]

/-- Equal elements in front of runs that start with another one are a run of their own. -/
theorem encode_replicate_append {a : α} {n : Nat} (hn : 0 < n) {xs : List α}
    (h : ∀ run ∈ (encode xs).head?, a ≠ run.1) :
    encode (List.replicate n a ++ xs) = (a, n) :: encode xs := by
  induction n with
  | zero => cases hn
  | succ n ih =>
    rw [List.replicate_succ, List.cons_append, encode_cons]
    cases n with
    | zero =>
      rw [List.replicate_zero, List.nil_append]
      cases hruns : encode xs with
      | nil => rfl
      | cons run runs =>
        have hne : a ≠ run.1 := h run (by rw [hruns]; rfl)
        rw [push, if_neg hne]
    | succ n => rw [ih n.succ_pos, push, if_pos rfl]

/-- Runs that are as long as they can be are the runs of the list they stand for. -/
theorem encode_decode {runs : List (α × Nat)} (h : Maximal runs) :
    encode (decode runs) = runs := by
  induction runs with
  | nil => rfl
  | cons run runs ih =>
    obtain ⟨a, n⟩ := run
    have hrest := ih h.tail
    have hhead : ∀ next ∈ (encode (decode runs)).head?, a ≠ next.1 := by
      rw [hrest]
      exact (List.isChain_cons.mp h.ne).1
    rw [decode_cons, encode_replicate_append (h.pos (a, n) List.mem_cons_self) hhead, hrest]

end RunLength

namespace Tone

/-! ### Samples as bytes -/

/-- The sample in two bytes, the low one first. -/
def sampleOf (low high : Byte) : Int := (high ++ low).toInt

def sampleAt? (bs : List Byte) (j : Nat) : Option Int := do
  let low ← bs[2 * j]?
  let high ← bs[2 * j + 1]?
  return sampleOf low high

/-- Two bytes hold a sample of 16 bits, one of them for the sign. -/
theorem sampleOf_sampleBytes {s : Int} (hlow : -0x8000 ≤ s) (hhigh : s < 0x8000) :
    sampleOf (BitVec.ofInt 8 s) (BitVec.ofInt 8 (Int.fdiv s 256)) = s := by
  have hdiv : Int.fdiv s 256 = s / 256 := Int.fdiv_eq_ediv_of_nonneg s (by decide)
  rw [sampleOf, BitVec.toInt_eq_toNat_bmod, BitVec.toNat_append,
    ← Nat.shiftLeft_add_eq_or_of_lt (BitVec.isLt _), Nat.shiftLeft_eq, BitVec.toNat_ofInt,
    BitVec.toNat_ofInt, hdiv, Int.bmod_def]
  omega

theorem length_bytes (samples : List Int) : (bytes samples).length = 2 * samples.length := by
  induction samples with
  | nil => rfl
  | cons s samples ih =>
    change (sampleBytes s ++ bytes samples).length = _
    rw [List.length_append, ih, List.length_cons]
    simp only [sampleBytes, List.length_cons, List.length_nil]
    omega

theorem sampleAt?_bytes {samples : List Int} (h : ∀ s ∈ samples, -0x8000 ≤ s ∧ s < 0x8000)
    (j : Nat) : sampleAt? (bytes samples) j = samples[j]? := by
  induction samples generalizing j with
  | nil => rfl
  | cons s samples ih =>
    obtain ⟨⟨hlow, hhigh⟩, hrest⟩ := List.forall_mem_cons.mp h
    have hcons : bytes (s :: samples) =
        BitVec.ofInt 8 s :: BitVec.ofInt 8 (Int.fdiv s 256) :: bytes samples := rfl
    cases j with
    | zero =>
      rw [hcons]
      exact congrArg some (sampleOf_sampleBytes hlow hhigh)
    | succ j =>
      rw [List.getElem?_cons_succ, ← ih hrest, hcons]
      rfl

/-! ### The wave -/

/-- The sample of a half period: up, then down, and so on. -/
def peak (i : Nat) : Int := if i % 2 = 0 then volume else -volume

theorem level_eq_peak (half frame : Nat) : level half frame = peak (frame / half) := rfl

theorem peak_succ (i : Nat) : peak (i + 1) = -peak i := by
  unfold peak
  rcases Nat.mod_two_eq_zero_or_one i with hi | hi
  · have hnext : (i + 1) % 2 = 1 := by omega
    rw [hi, hnext]
    rfl
  · have hnext : (i + 1) % 2 = 0 := by omega
    rw [hi, hnext]
    rfl

theorem peak_ne_peak_succ (i : Nat) : peak i ≠ peak (i + 1) := by
  rw [peak_succ]
  unfold peak
  split <;> decide

theorem peak_small (i : Nat) : -0x8000 ≤ peak i ∧ peak i < 0x8000 := by
  unfold peak
  split <;> decide

theorem wave_succ (half frames channels : Nat) :
    wave half (frames + 1) channels =
      wave half frames channels ++ List.replicate channels (level half frames) := by
  simp only [wave, List.range_succ, List.flatMap_append, List.flatMap_singleton]

theorem getElem?_wave (half frames channels j : Nat) :
    (wave half frames channels)[j]? =
      if j < frames * channels then some (peak (j / channels / half)) else none := by
  induction frames with
  | zero => simp [wave]
  | succ frames ih =>
    rw [wave_succ, List.getElem?_append, length_wave, ih, List.getElem?_replicate, Nat.succ_mul]
    by_cases hold : j < frames * channels
    · have hnew : j < frames * channels + channels := by omega
      rw [if_pos hold, if_pos hold, if_pos hnew]
    · rw [if_neg hold]
      by_cases hnew : j < frames * channels + channels
      · -- the place lies in the last frame
        have hframe : j / channels = frames :=
          Nat.div_eq_of_lt_le (by omega) (by rw [Nat.succ_mul]; omega)
        rw [if_pos (by omega), if_pos hnew, hframe, level_eq_peak]
      · rw [if_neg (by omega), if_neg hnew]

theorem sample_small_of_mem_wave {half frames channels : Nat} {s : Int}
    (h : s ∈ wave half frames channels) : -0x8000 ≤ s ∧ s < 0x8000 := by
  obtain ⟨frame, -, hs⟩ := List.mem_flatMap.mp h
  rw [List.eq_of_mem_replicate hs, level_eq_peak]
  exact peak_small _

/-- The frames of one half period have the same sample. -/
theorem wave_add (half q channels : Nat) {r : Nat} (hr : r ≤ half) :
    wave half (q * half + r) channels =
      wave half (q * half) channels ++ List.replicate (r * channels) (peak q) := by
  induction r with
  | zero => simp
  | succ r ih =>
    have hquotient : (q * half + r) / half = q :=
      Nat.div_eq_of_lt_le (by omega) (by rw [Nat.succ_mul]; omega)
    have hlevel : level half (q * half + r) = peak q := by rw [level_eq_peak, hquotient]
    rw [← Nat.add_assoc, wave_succ, ih (by omega), hlevel, List.append_assoc,
      List.replicate_append_replicate, Nat.succ_mul]

/-! ### Its runs -/

def runs (half q r channels : Nat) : List (Int × Nat) :=
  (List.range q).map (fun i => (peak i, half * channels)) ++ [(peak q, r * channels)]

theorem wave_mul (half q channels : Nat) :
    wave half (q * half) channels =
      RunLength.decode ((List.range q).map fun i => (peak i, half * channels)) := by
  induction q with
  | zero => simp [wave]
  | succ q ih =>
    rw [Nat.succ_mul, wave_add half q channels le_rfl, ih, List.range_succ, List.map_append,
      RunLength.decode, RunLength.decode, List.flatMap_append]
    simp

theorem wave_eq_decode_runs (half q channels : Nat) {r : Nat} (hr : r ≤ half) :
    wave half (q * half + r) channels = RunLength.decode (runs half q r channels) := by
  rw [wave_add half q channels hr, wave_mul, runs, RunLength.decode, RunLength.decode,
    List.flatMap_append]
  simp

theorem runs_eq_map (half q r channels : Nat) :
    runs half q r channels = (List.range (q + 1)).map fun i =>
      (peak i, if i < q then half * channels else r * channels) := by
  rw [runs, List.range_succ, List.map_append]
  congr 1
  · apply List.map_congr_left
    intro i hi
    rw [if_pos (List.mem_range.mp hi)]
  · simp

theorem maximal_runs {half q r channels : Nat} (hhalf : 0 < half) (hr : 0 < r)
    (hchannels : 0 < channels) : RunLength.Maximal (runs half q r channels) where
  pos := by
    rw [runs_eq_map]
    intro run hrun
    obtain ⟨i, -, rfl⟩ := List.mem_map.mp hrun
    dsimp only
    split
    · exact Nat.mul_pos hhalf hchannels
    · exact Nat.mul_pos hr hchannels
  ne := by
    rw [runs_eq_map, List.isChain_map, List.isChain_range_succ]
    exact fun i _ => peak_ne_peak_succ i

theorem encode_wave {half q r channels : Nat} (hr : 0 < r) (hle : r ≤ half)
    (hchannels : 0 < channels) :
    RunLength.encode (wave half (q * half + r) channels) = runs half q r channels := by
  rw [wave_eq_decode_runs half q channels hle]
  exact RunLength.encode_decode (maximal_runs (by omega) hr hchannels)

/-- Frames fall into whole half periods and a last one that has at least a frame. -/
theorem exists_eq_mul_add {half frames : Nat} (hhalf : 1 ≤ half) (hframes : 0 < frames) :
    ∃ q r, frames = q * half + r ∧ 0 < r ∧ r ≤ half ∧ (frames + half - 1) / half = q + 1 := by
  have hdiv := Nat.div_add_mod (frames - 1) half
  have hlt := Nat.mod_lt (frames - 1) hhalf
  rw [Nat.mul_comm] at hdiv
  refine ⟨(frames - 1) / half, (frames - 1) % half + 1, by omega, by omega, by omega, ?_⟩
  have hsum : frames + half - 1 = frames - 1 + half := by omega
  rw [hsum, Nat.add_div_right _ hhalf]

/-- All runs but the last are as long as half a period, and the last takes the rest. -/
theorem encode_wave_eq_map {half frames channels : Nat} (hhalf : 1 ≤ half) (hframes : 0 < frames)
    (hchannels : 0 < channels) :
    let count := (frames + half - 1) / half
    let rest := frames * channels - (count - 1) * (half * channels)
    0 < rest ∧ RunLength.encode (wave half frames channels) =
      (List.range count).map fun i =>
        (peak i, if i + 1 < count then half * channels else rest) := by
  obtain ⟨q, r, hsum, hr, hle, hcount⟩ := exists_eq_mul_add hhalf hframes
  intro count rest
  have hrest : rest = r * channels := by
    have hwhole : q * (half * channels) = q * half * channels := (Nat.mul_assoc _ _ _).symm
    simp only [rest, count, hcount, Nat.add_sub_cancel, hwhole]
    rw [hsum, Nat.add_mul, Nat.add_sub_cancel_left]
  refine ⟨hrest ▸ Nat.mul_pos hr hchannels, ?_⟩
  rw [hrest, hsum, encode_wave hr hle hchannels, runs_eq_map]
  simp only [count, hcount, Nat.add_lt_add_iff_right]

/-! ### The tone -/

section Samples

variable {t : Tone} {f rate channels : Int} {length : Number} {frames half : Nat}

theorem halfPeriod_int (hfrequency : t.frequency = .int f) (hf : 1 ≤ f) (rate : Int) :
    t.halfPeriod rate = .ok (max 1 (rate / (2 * f)).toNat) := by
  have hzero : ¬f * 2 = 0 := by omega
  have hdiv : Int.fdiv rate (f * 2) = rate / (2 * f) := by
    rw [Int.fdiv_eq_ediv_of_nonneg rate (by omega), Int.mul_comm]
  rw [halfPeriod, hfrequency, Number.mul_int]
  simp only [Number.floorDivide, bind, Except.bind, if_neg hzero, hdiv]
  rfl

theorem frameCount_eq (hlength : (Number.int rate).mul t.duration = .ok length)
    (hframes : length.truncate = .ok (frames : Int)) : t.frameCount rate = .ok frames := by
  simp only [frameCount, hlength, bind, Except.bind, hframes]
  rfl

theorem fits64_iff {n : Int} (hn : 0 ≤ n) : Width.fits64 n = true ↔ n < 0x8000000000000000 := by
  rw [Width.fits64, decide_eq_true_iff]
  omega

theorem frameWidth_eq (hchannels : 1 ≤ channels) :
    frameWidth channels =
      if channels < 0x1000000000000000 then .ok channels.toNat
      else .error (if channels < 0x8000000000000000 then .outOfMemory else .channelsTooWide) := by
  have hnumber := fits64_iff (n := channels) (by omega)
  have hlist := fits64_iff (n := 8 * channels.toNat) (by omega)
  unfold frameWidth
  by_cases hsmall : channels < 0x1000000000000000
  · rw [hnumber.mpr (by omega), hlist.mpr (by omega), if_pos hsmall]
    rfl
  · have hlarge : Width.fits64 (8 * channels.toNat) = false := by
      rw [Bool.eq_false_iff, ne_eq, hlist]
      omega
    rw [hlarge, if_neg hsmall]
    by_cases hwide : channels < 0x8000000000000000
    · rw [hnumber.mpr hwide, if_pos hwide]
      rfl
    · rw [Bool.eq_false_iff.mpr (mt hnumber.mp hwide), if_neg hwide]
      rfl

theorem samples_eq (hhalf : t.halfPeriod rate = .ok half)
    (hframes : t.frameCount rate = .ok frames) (hchannels : 1 ≤ channels) :
    t.samples rate channels =
      if frames = 0 ∨ channels < 0x1000000000000000 then .ok (wave half frames channels.toNat)
      else .error (if channels < 0x8000000000000000 then .outOfMemory else .channelsTooWide) := by
  have hsamples : t.samples rate channels =
      if frames = 0 then .ok [] else (frameWidth channels).map (wave half frames) := by
    rw [samples, hhalf, hframes]
    rfl
  rw [hsamples, frameWidth_eq hchannels]
  by_cases hnone : frames = 0
  · subst hnone
    rfl
  · by_cases hsmall : channels < 0x1000000000000000 <;> simp only [hnone, hsmall] <;> rfl

end Samples

end Tone
end ChipEight
