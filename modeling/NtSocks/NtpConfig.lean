import Mathlib.Data.Nat.Log
import NtSocks.Lib.Runs

/-!
# Proxy configuration

The proxy starts from fixed defaults and applies command line options and configuration file
entries. The packet size and the slot stride of a data ring are set together, the stride being
the largest power of two below the packet size, so a packet size that is not a power of two is
larger than the slots it is written to.
-/

namespace NtSocks

structure NtpConfig where
  dataPacketSize : ℕ
  ntbPacketbitsSize : ℕ
  dataRingbufferSize : ℕ
  dataPacketSize_lt : dataPacketSize < 65536
  deriving DecidableEq, Repr

/-- An entry that `ntp_parse_args` or `load_conf` applies, as the integer that `atoi` read. -/
inductive ConfigSetting
  | mtuSize (n : ℤ)
  | ntbPacketbitsSize (n : ℤ)
  | dataPacketSize (n : ℤ)
  | dataRingbufferSize (n : ℕ)
  deriving DecidableEq, Repr

abbrev ntpacketHeaderLen : ℕ := 8

def uint16 (n : ℤ) : ℕ := (n % 65536).toNat

theorem uint16_lt (n : ℤ) : uint16 n < 65536 := by
  unfold uint16
  omega

theorem uint16_natCast {n : ℕ} (h : n < 65536) : uint16 (n : ℤ) = n := by
  unfold uint16
  omega

def mathLog2 (n : ℕ) : ℕ := Nat.log 2 n

namespace NtpConfig

def defaults : NtpConfig where
  dataPacketSize := 0
  ntbPacketbitsSize := 7
  dataRingbufferSize := 0x4000000
  dataPacketSize_lt := by decide

/-- `none` is the exit of `ntp_parse_args` on an MTU outside its range. -/
def apply (cfg : NtpConfig) : ConfigSetting → Option NtpConfig
  | .mtuSize n =>
    if 8 < n ∧ n < 65536 then
      some { cfg with
        dataPacketSize := uint16 n
        ntbPacketbitsSize := mathLog2 (uint16 n)
        dataPacketSize_lt := uint16_lt n }
    else none
  | .ntbPacketbitsSize n =>
    some { cfg with
      ntbPacketbitsSize := uint16 n
      dataPacketSize := (1 <<< uint16 n) % 65536
      dataPacketSize_lt := Nat.mod_lt _ (by decide) }
  | .dataPacketSize n =>
    some { cfg with
      dataPacketSize := uint16 n
      ntbPacketbitsSize := mathLog2 (uint16 n)
      dataPacketSize_lt := uint16_lt n }
  | .dataRingbufferSize n => some { cfg with dataRingbufferSize := n % 2 ^ 64 }

def Accepted (cfg : NtpConfig) : Prop := ∃ settings, Runs.run apply defaults settings = some cfg

variable (cfg : NtpConfig)

def stride : ℕ := 1 <<< cfg.ntbPacketbitsSize

def capacity : ℕ := cfg.dataRingbufferSize / cfg.stride

def datapacketPayloadSize : ℕ := uint16 (cfg.dataPacketSize - ntpacketHeaderLen)

def slotAddr (index : ℕ) : ℕ := index <<< cfg.ntbPacketbitsSize

theorem stride_eq : cfg.stride = 2 ^ cfg.ntbPacketbitsSize := Nat.one_shiftLeft _

theorem stride_pos : 0 < cfg.stride := by
  rw [stride_eq]
  positivity

theorem slotAddr_eq (index : ℕ) : cfg.slotAddr index = index * cfg.stride := by
  rw [slotAddr, stride_eq, Nat.shiftLeft_eq]

theorem datapacketPayloadSize_eq (h : 8 ≤ cfg.dataPacketSize) :
    cfg.datapacketPayloadSize = cfg.dataPacketSize - 8 := by
  have hlt := cfg.dataPacketSize_lt
  unfold datapacketPayloadSize uint16 ntpacketHeaderLen
  omega

/-- What every accepted configuration satisfies: unless it is zero, the packet size lies between
one and two strides. -/
structure Shaped : Prop where
  packet_lt_two_strides : cfg.dataPacketSize < 2 * cfg.stride
  stride_le_packet : cfg.dataPacketSize ≠ 0 → cfg.stride ≤ cfg.dataPacketSize

variable {cfg}

theorem shaped_of_log2 {n : ℕ} (hP : cfg.dataPacketSize = n)
    (hb : cfg.ntbPacketbitsSize = mathLog2 n) : cfg.Shaped where
  packet_lt_two_strides := by
    have h : n < 2 ^ (Nat.log 2 n + 1) := Nat.lt_pow_succ_log_self (by omega) n
    rw [stride_eq, hb, mathLog2, hP]
    omega
  stride_le_packet := by
    intro h0
    rw [stride_eq, hb, hP]
    exact Nat.pow_log_le_self 2 (by omega)

theorem shaped_of_packetbits {b : ℕ} (hb : cfg.ntbPacketbitsSize = b)
    (hP : cfg.dataPacketSize = (1 <<< b) % 65536) : cfg.Shaped where
  packet_lt_two_strides := by
    have hpos : 0 < 2 ^ b := by positivity
    have hle : 2 ^ b % 65536 ≤ 2 ^ b := Nat.mod_le _ _
    rw [stride_eq, hb, hP, Nat.one_shiftLeft]
    omega
  stride_le_packet := by
    intro h0
    rw [hP, Nat.one_shiftLeft] at h0
    have hlt : 2 ^ b < 65536 := by
      by_contra hge
      have hdvd : 65536 ∣ 2 ^ b := by
        have hb16 : 16 ≤ b := (Nat.pow_le_pow_iff_right (by omega)).mp (by omega : 2 ^ 16 ≤ 2 ^ b)
        exact pow_dvd_pow 2 hb16
      exact h0 (Nat.mod_eq_zero_of_dvd hdvd)
    rw [stride_eq, hb, hP, Nat.one_shiftLeft, Nat.mod_eq_of_lt hlt]

theorem shaped_apply {cfg cfg' : NtpConfig} {setting : ConfigSetting} (h : cfg.Shaped)
    (hs : cfg.apply setting = some cfg') : cfg'.Shaped := by
  cases setting with
  | mtuSize n =>
    simp only [apply, Option.ite_none_right_eq_some, Option.some.injEq] at hs
    obtain ⟨-, rfl⟩ := hs
    exact shaped_of_log2 rfl rfl
  | ntbPacketbitsSize n =>
    obtain rfl := Option.some.inj hs
    exact shaped_of_packetbits rfl rfl
  | dataPacketSize n =>
    obtain rfl := Option.some.inj hs
    exact shaped_of_log2 rfl rfl
  | dataRingbufferSize n =>
    obtain rfl := Option.some.inj hs
    exact ⟨h.packet_lt_two_strides, h.stride_le_packet⟩

theorem Accepted.shaped (h : cfg.Accepted) : cfg.Shaped := by
  obtain ⟨settings, hrun⟩ := h
  have hdefaults : defaults.Shaped := ⟨by decide, by decide⟩
  exact Runs.invariant (fun _ _ _ => shaped_apply) hdefaults hrun

end NtpConfig

end NtSocks
