import BitcoinNetwork.Protocols.Version
import Mathlib.Tactic.NormNum

/-!
# The clock check of a version (protocol_version_106.cpp, to_deviation)

A wall clock is a count of nanoseconds of 64 bits. The seconds that a peer sends are scaled
to it, so that timestamps that are far apart can be of one time.
-/

namespace BitcoinNetwork.Protocols
namespace Settings

def nanoseconds : ℤ := 1000000000

/-- `wall_clock::from_time_t`, of a `time_t` that is signed. -/
def fromSigned (timestamp : ℕ) : ℤ :=
  ((timestamp : ℤ).bmod (2 ^ 64) * nanoseconds).bmod (2 ^ 64)

/-- The settings, with the clock of libstdc++. -/
def clocked (cfg : Settings) : Settings := { cfg with fromTimeT := fromSigned }

theorem clocked_maximum (cfg : Settings) :
    cfg.clocked.maximumSkewMinutes = cfg.maximumSkewMinutes := by
  unfold clocked
  rfl

/-- A version comes to the check of its timestamp. -/
structure Reaches (cfg : Settings) (message : Version) : Prop where
  supported : message.services &&& cfg.invalidServices = 0
  sufficient : message.services &&& cfg.requiredServices = cfg.requiredServices
  value : cfg.minimumVersion ≤ message.value

/-- The nanoseconds from the local time to that of the peer, and the whole minutes of them. -/
def difference (timestamp : ℕ) (now : ℤ) : ℤ := timestamp * nanoseconds - now

def exactDeviation (timestamp : ℕ) (now : ℤ) : ℤ := (difference timestamp now).tdiv (60 * nanoseconds)

/-- Beneath this the minutes are within the maximum. -/
def window (cfg : Settings) : ℕ := (cfg.maximumSkewMinutes + 1) * 60000000000

/-- The time of the peer is beyond the maximum, and within it of the local time once the
count of nanoseconds has wrapped. -/
def Wraps (cfg : Settings) (timestamp : ℕ) (now : ℤ) : Prop :=
  cfg.window ≤ (difference timestamp now).natAbs ∧
    ∃ turns : ℤ, (difference timestamp now - turns * 2 ^ 64).natAbs < cfg.window

variable {cfg : Settings}

theorem minutes_le_iff (span : ℤ) (cfg : Settings) :
    (span.tdiv (60 * nanoseconds)).natAbs ≤ cfg.maximumSkewMinutes ↔ span.natAbs < cfg.window := by
  have hminute : (60 * nanoseconds).natAbs = 60000000000 := by norm_num [nanoseconds]
  rw [Int.natAbs_tdiv, hminute]
  show span.natAbs / 60000000000 ≤ cfg.maximumSkewMinutes ↔ _
  rw [← Nat.lt_succ_iff]
  exact Nat.div_lt_iff_lt_mul (by norm_num)

/-- Each conversion keeps the residue, so that only the last one shows. -/
theorem toDeviation_clocked (cfg : Settings) (timestamp : ℕ) (now : ℤ) :
    cfg.clocked.toDeviation timestamp now =
      ((difference timestamp now).bmod (2 ^ 64)).tdiv (60 * nanoseconds) := by
  unfold toDeviation clocked fromSigned difference
  dsimp only
  rw [Int.bmod_sub_bmod, Int.sub_eq_add_neg, ← Int.bmod_add_bmod, Int.bmod_mul_bmod,
    Int.bmod_add_bmod, ← Int.sub_eq_add_neg]
  rfl

/-- The residue is the least of the differences that it could be of. -/
theorem natAbs_bmod_le (span turns : ℤ) : (span.bmod (2 ^ 64)).natAbs ≤ (span - turns * 2 ^ 64).natAbs := by
  have hlow := Int.le_bmod (x := span) (m := 2 ^ 64) (by decide)
  have hhigh := Int.bmod_lt (x := span) (m := 2 ^ 64) (by decide)
  have hspan := Int.bmod_add_bdiv span (2 ^ 64)
  generalize span.bmod (2 ^ 64) = residue at hlow hhigh hspan ⊢
  generalize span.bdiv (2 ^ 64) = quotient at hspan
  norm_num at hlow hhigh hspan ⊢
  omega

theorem refusal_none_iff {message : Version} (h : Reaches cfg message) (now : ℤ) :
    cfg.refusal message now = none ↔
      (cfg.toDeviation message.timestamp now).natAbs ≤ cfg.maximumSkewMinutes := by
  unfold refusal
  rw [if_neg (not_not.mpr h.supported), if_neg (not_not.mpr h.sufficient),
    if_neg (Nat.not_lt.mpr h.value)]
  split
  · next hskew => exact ⟨nofun, fun hle => absurd hskew (Nat.not_lt.mpr hle)⟩
  · next hskew => exact ⟨fun _ => Nat.not_lt.mp hskew, fun _ => rfl⟩

/-- The check of `handle_receive_version` is that of the exact minutes, unless they wrap. -/
theorem timestamp_exact_iff {message : Version} (h : Reaches cfg message) (now : ℤ) :
    (cfg.clocked.refusal message now = none ↔
        (exactDeviation message.timestamp now).natAbs ≤ cfg.maximumSkewMinutes) ↔
      ¬Wraps cfg message.timestamp now := by
  have hreaches : Reaches cfg.clocked message := by
    unfold clocked
    exact ⟨h.supported, h.sufficient, h.value⟩
  have hresidue := Int.bmod_add_bdiv (difference message.timestamp now) (2 ^ 64)
  have hleast := natAbs_bmod_le (difference message.timestamp now)
  have hrefusal := refusal_none_iff hreaches now
  rw [toDeviation_clocked, clocked_maximum, minutes_le_iff] at hrefusal
  rw [hrefusal]
  unfold exactDeviation Wraps
  rw [minutes_le_iff]
  generalize difference message.timestamp now = span at hresidue hleast
  constructor
  · rintro hexact ⟨hbeyond, turns, hwithin⟩
    exact absurd (hexact.mp ((hleast turns).trans_lt hwithin)) (Nat.not_lt.mpr hbeyond)
  · intro hwraps
    refine ⟨fun hwithin => ?_, fun hexact => ?_⟩
    · by_contra hbeyond
      refine hwraps ⟨Nat.not_lt.mp hbeyond, span.bdiv (2 ^ 64), ?_⟩
      have hspan : span - span.bdiv (2 ^ 64) * 2 ^ 64 = span.bmod (2 ^ 64) := by
        omega
      rw [hspan]
      exact hwithin
    · have hself := hleast 0
      rw [Int.zero_mul, Int.sub_zero] at hself
      exact hself.trans_lt hexact

/-- The defaults, and a peer that is two minutes ahead. -/
def defaultSettings : Settings where
  minimumVersion := 31402
  maximumVersion := 70016
  requiredServices := 9
  invalidServices := 176
  maximumSkewMinutes := 120
  timed := true
  signals := true
  fromTimeT timestamp := timestamp * 1000000000

def ahead : Version := ⟨70016, 9, 1700000120⟩

theorem timestamp_exact_ahead :
    (defaultSettings.clocked.refusal ahead 1700000000000000000 = none ↔
        (exactDeviation ahead.timestamp 1700000000000000000).natAbs ≤ 120) ↔
      ¬Wraps defaultSettings ahead.timestamp 1700000000000000000 :=
  timestamp_exact_iff ⟨by decide, by decide, by decide⟩ 1700000000000000000

/-- A timestamp that is 2^55 seconds ahead is that of the local time. -/
theorem not_timestamp_exact : ¬∀ (cfg : Settings) (message : Version) (now : ℤ),
    Reaches cfg message →
    (cfg.clocked.refusal message now = none ↔
      (exactDeviation message.timestamp now).natAbs ≤ cfg.maximumSkewMinutes) := by
  intro hall
  have h := hall defaultSettings ⟨70016, 9, 1700000000 + 2 ^ 55⟩ 1700000000000000000
    ⟨by decide, by decide, by decide⟩
  exact absurd (h.mp (by decide)) (by decide)

end Settings
end BitcoinNetwork.Protocols
