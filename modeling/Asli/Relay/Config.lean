import Asli.Logic.Result
import Asli.Relay.RegistryRuns
import Asli.Relay.Server

/-!
# Config — the limits of the relay, `server/src/config.ts`

Every limit is an environment variable within a range, and a few are checked against each other.
What the process finds around it is its environment, and `Number` of a text where
that is an integer.
-/

namespace Asli
namespace Relay

open Logic

/-- The surroundings of `loadConfig`. -/
structure Process where
  env : String → Option String
  /-- `Number(raw)`, when `Number.isInteger` says it is one. -/
  integer : String → Option Int

/-- `Config` of `config.ts`: the limits of the server, and what only the process itself reads. -/
structure Settings extends Config where
  port : Nat
  host : String
  metricsPort : Nat
  logLevel : String
  authTimeoutMs : Nat
  heartbeatIntervalMs : Nat
  trustedProxyCidrs : List String
  deriving DecidableEq

def KIB : Nat := 1024
def MIB : Nat := 1024 * 1024

/-! ## Reading the environment -/

section Read

variable (process : Process)

def readInt (name : String) (fallback min max : Nat) : Except String Nat :=
  match process.env name with
  | none => .ok fallback
  | some raw =>
      if raw = "" then .ok fallback
      else
        match process.integer raw with
        | none => .error (name ++ " must be an integer, got " ++ Json.quote raw)
        | some value =>
            if value < min ∨ value > max then
              .error (name ++ " must be between " ++ toString min ++ " and " ++ toString max ++
                ", got " ++ toString value)
            else .ok value.toNat

def readString (name fallback : String) : String :=
  match process.env name with
  | none => fallback
  | some raw => if raw = "" then fallback else raw

/-- The white space and line ends that `trim` takes off. -/
def isSpace (c : Char) : Bool :=
  [9, 10, 11, 12, 13, 32, 0xA0, 0x1680, 0x2028, 0x2029, 0x202F, 0x205F, 0x3000, 0xFEFF].contains
    c.toNat || decide (0x2000 ≤ c.toNat ∧ c.toNat ≤ 0x200A)

def trim (entry : List Char) : List Char :=
  ((entry.dropWhile isSpace).reverse.dropWhile isSpace).reverse

def readList (name : String) : List String :=
  match process.env name with
  | none => []
  | some raw =>
      if raw = "" then []
      else
        (((raw.toList.splitOn ',').map trim).filter fun entry => !entry.isEmpty).map String.ofList

/-- The object literal of `loadConfig`, read from the top. -/
def readSettings : Except String Settings := do
  let port ← readInt process "PORT" 8080 1 65535
  let metricsPort ← readInt process "METRICS_PORT" 9090 0 65535
  let maxFrameBytes ← readInt process "MAX_FRAME_BYTES" MIB (4 * KIB) (64 * MIB)
  let handshakeFrameBytes ← readInt process "HANDSHAKE_FRAME_BYTES" (4 * KIB) 512 (64 * KIB)
  let maxContentBytes ← readInt process "MAX_CONTENT_BYTES" (700 * KIB) KIB (32 * MIB)
  let retainMaxBytes ← readInt process "RETAIN_MAX_BYTES" (64 * KIB) 0 (16 * MIB)
  let retainGlobalBudgetBytes ←
    readInt process "RETAIN_GLOBAL_BUDGET_BYTES" (256 * MIB) 0 (8192 * MIB)
  let retainTtlMs ←
    readInt process "RETAIN_TTL_MS" (24 * 60 * 60 * 1000) 1000 (30 * 24 * 60 * 60 * 1000)
  let maxRooms ← readInt process "MAX_ROOMS" 100000 1 10000000
  let authTimeoutMs ← readInt process "AUTH_TIMEOUT_MS" 10000 500 120000
  let heartbeatIntervalMs ← readInt process "HEARTBEAT_INTERVAL_MS" 30000 1000 300000
  let msgBurst ← readInt process "MSG_BURST" 10 1 10000
  let msgsPerSec ← readInt process "MSGS_PER_SEC" 2 1 10000
  let byteBurst ← readInt process "BYTE_BURST" (2 * MIB) KIB (512 * MIB)
  let bytesPerSec ← readInt process "BYTES_PER_SEC" (256 * KIB) KIB (512 * MIB)
  let roomBytesPerDay ←
    readInt process "ROOM_BYTES_PER_DAY" (50 * MIB) (64 * KIB) (64 * 1024 * MIB)
  let transferMsgBurst ← readInt process "TRANSFER_MSG_BURST" 128 1 100000
  let transferMsgsPerSec ← readInt process "TRANSFER_MSGS_PER_SEC" 64 1 100000
  let transferByteBurst ← readInt process "TRANSFER_BYTE_BURST" (16 * MIB) KIB (4096 * MIB)
  let transferBytesPerSec ← readInt process "TRANSFER_BYTES_PER_SEC" (8 * MIB) KIB (4096 * MIB)
  let roomTransferBytesPerDay ←
    readInt process "ROOM_TRANSFER_BYTES_PER_DAY" (4096 * MIB) MIB (1024 * 1024 * MIB)
  let globalTransferBytesPerDay ←
    readInt process "GLOBAL_TRANSFER_BYTES_PER_DAY" (32 * 1024 * MIB) MIB (1024 * 1024 * MIB)
  let maxConnsPerIp ← readInt process "MAX_CONNS_PER_IP" 20 1 100000
  let newConnBurst ← readInt process "NEW_CONN_BURST" 10 1 10000
  let newConnRefillMs ← readInt process "NEW_CONN_REFILL_MS" 5000 1 3600000
  let maxConnsPerRoom ← readInt process "MAX_CONNS_PER_ROOM" 16 2 10000
  let maxConnsGlobal ← readInt process "MAX_CONNS_GLOBAL" 10000 2 1000000
  let backpressureSoftBytes ← readInt process "BACKPRESSURE_SOFT_BYTES" MIB KIB (64 * MIB)
  let backpressureHardBytes ← readInt process "BACKPRESSURE_HARD_BYTES" (8 * MIB) KIB (256 * MIB)
  let backpressureGraceMs ← readInt process "BACKPRESSURE_GRACE_MS" 15000 100 600000
  let dedupWindow ← readInt process "DEDUP_WINDOW" 256 16 100000
  let presenceDebounceMs ← readInt process "PRESENCE_DEBOUNCE_MS" 1500 0 60000
  .ok
    { port := port
      host := readString process "HOST" "0.0.0.0"
      metricsPort := metricsPort
      logLevel := readString process "LOG_LEVEL" "info"
      maxFrameBytes := maxFrameBytes
      handshakeFrameBytes := handshakeFrameBytes
      maxContentBytes := maxContentBytes
      retainMaxBytes := retainMaxBytes
      retainGlobalBudgetBytes := retainGlobalBudgetBytes
      retainTtlMs := retainTtlMs
      maxRooms := maxRooms
      authTimeoutMs := authTimeoutMs
      heartbeatIntervalMs := heartbeatIntervalMs
      msgBurst := msgBurst
      msgsPerSec := msgsPerSec
      byteBurst := byteBurst
      bytesPerSec := bytesPerSec
      roomBytesPerDay := roomBytesPerDay
      transferMsgBurst := transferMsgBurst
      transferMsgsPerSec := transferMsgsPerSec
      transferByteBurst := transferByteBurst
      transferBytesPerSec := transferBytesPerSec
      roomTransferBytesPerDay := roomTransferBytesPerDay
      globalTransferBytesPerDay := globalTransferBytesPerDay
      maxConnsPerIp := maxConnsPerIp
      newConnBurst := newConnBurst
      newConnRefillMs := newConnRefillMs
      maxConnsPerRoom := maxConnsPerRoom
      maxConnsGlobal := maxConnsGlobal
      backpressureSoftBytes := backpressureSoftBytes
      backpressureHardBytes := backpressureHardBytes
      backpressureGraceMs := backpressureGraceMs
      dedupWindow := dedupWindow
      presenceDebounceMs := presenceDebounceMs
      trustedProxyCidrs := readList process "TRUSTED_PROXY_CIDRS" }

/-- The checks of one limit against another. -/
def crossCheck (config : Settings) : Except String Settings :=
  if config.retainMaxBytes > config.maxFrameBytes then
    .error "RETAIN_MAX_BYTES must not exceed MAX_FRAME_BYTES"
  else if config.backpressureHardBytes ≤ config.backpressureSoftBytes then
    .error "BACKPRESSURE_HARD_BYTES must be greater than BACKPRESSURE_SOFT_BYTES"
  else if config.metricsPort ≠ 0 ∧ config.metricsPort = config.port then
    .error "METRICS_PORT must differ from PORT"
  -- `4 / 3` is rounded, but for limits of this size the comparison comes out as the exact one
  else if 4 * config.maxContentBytes ≥ 3 * config.maxFrameBytes then
    .error "MAX_CONTENT_BYTES is too large for MAX_FRAME_BYTES once base64 expansion is applied"
  else .ok config

def loadConfig : Except String Settings :=
  readSettings process >>= crossCheck

end Read

/-- The part of the configuration that `createRelay` hands to the registry. -/
def Config.registryOptions (config : Config) : RegistryOptions :=
  { retainMaxBytes := config.retainMaxBytes
    retainGlobalBudgetBytes := config.retainGlobalBudgetBytes
    retainTtlMs := config.retainTtlMs
    maxRooms := config.maxRooms
    maxConnsPerRoom := config.maxConnsPerRoom
    dedupWindow := config.dedupWindow
    presenceDebounceMs := config.presenceDebounceMs }

theorem createRelay_registry (config : Config) (now : Int) :
    (createRelay config now).registry = RoomRegistry.new config.registryOptions := rfl

/-! ## What a limit that was read satisfies -/

variable {process : Process}

open Logic.Result

theorem readInt_range {name : String} {fallback min max : Nat} (hlow : min ≤ fallback)
    (hhigh : fallback ≤ max) :
    Ensures (readInt process name fallback min max) fun n => min ≤ n ∧ n ≤ max := by
  have hfallback : Ensures (.ok fallback : Except String Nat) fun n => min ≤ n ∧ n ≤ max :=
    Ensures.ok ⟨hlow, hhigh⟩
  unfold readInt
  split
  · exact hfallback
  · split
    · exact hfallback
    · split
      · exact Ensures.error
      next value _ =>
        split
        · exact Ensures.error
        next hrange => exact Ensures.ok (by omega)

/-- A relay has place for a room. -/
theorem readSettings_maxRooms : Ensures (readSettings process) fun s => 1 ≤ s.maxRooms := by
  unfold readSettings
  iterate 8 refine Ensures.skip fun _ => ?_
  refine Ensures.bind (readInt_range (by decide) (by decide)) fun maxRooms hrooms => ?_
  iterate 23 refine Ensures.skip fun _ => ?_
  exact Ensures.ok hrooms.1

/-- The checks across limits change nothing, so what was read still holds. -/
theorem loadConfig_ensures {p : Settings → Prop} (h : Ensures (readSettings process) p) :
    Ensures (loadConfig process) p := by
  refine Ensures.bind h fun s hs => ?_
  unfold crossCheck
  split
  · exact Ensures.error
  · split
    · exact Ensures.error
    · split
      · exact Ensures.error
      · split
        · exact Ensures.error
        · exact Ensures.ok hs

theorem loadConfig_maxRooms : Ensures (loadConfig process) fun s => 1 ≤ s.maxRooms :=
  loadConfig_ensures readSettings_maxRooms

/-! ## The memory ceiling -/

section Ceiling

variable {options : RegistryOptions}

open RoomRegistry

/-- The registry of a run that is one operation longer. -/
theorem watched_snoc (run : List Op) (op : Op) :
    (watched options (run ++ [op])).registry = (watched options run).registry.apply op := by
  unfold watched
  rw [List.foldl_append]
  rfl

/-- If one clip always fits in the budget, so do all of them together. -/
theorem total_within (hlimits : options.retainMaxBytes ≤ options.retainGlobalBudgetBytes)
    (run : List Op) :
    total (watched options run).registry.rooms ≤ options.retainGlobalBudgetBytes := by
  have hheld : (watched options run).registry.retainedBytes ≤ options.retainGlobalBudgetBytes := by
    induction run using List.reverseRecOn with
    | nil => exact Int.natCast_nonneg _
    | append_singleton run op ih =>
        have hsound := watched_sound options run
        rw [watched_snoc]
        have hstep := apply_within hsound.tidy op
        rw [hsound.configured] at hstep
        exact hstep hlimits ih
  have hbalanced := (watched_sound options run).tidy.balanced
  omega

/-- Otherwise the first clip of the size that may be stored is already too much. -/
theorem total_beyond (hplace : 1 ≤ options.maxRooms)
    (hlimits : options.retainGlobalBudgetBytes < options.retainMaxBytes) :
    ∃ run : List Op,
      options.retainGlobalBudgetBytes < total (watched options run).registry.rooms := by
  let c : Connection := { handle := 0, id := "c_00000000", roomId := "room" }
  let frame := String.ofList (List.replicate options.retainMaxBytes 'a')
  have hsize : frame.utf8ByteSize = options.retainMaxBytes := by
    have hchars : ∀ n : Nat, (String.ofList (List.replicate n 'a')).utf8ByteSize = n := by
      intro n
      induction n with
      | zero => rfl
      | succ n ih =>
          rw [List.replicate_succ, String.ofList_cons, String.utf8ByteSize_append, ih,
            String.utf8ByteSize_singleton]
          exact Nat.add_comm 1 n
    exact hchars options.retainMaxBytes
  refine ⟨[.join c 0, .retain c.roomId frame "" 0], ?_⟩
  have hjoined := watched_sound options [.join c 0]
  obtain ⟨room, hroom⟩ := join_first hplace c 0
  have hsmall : frame.utf8ByteSize ≤
      (watched options [.join c 0]).registry.options.retainMaxBytes := by
    rw [hjoined.configured]
    exact hsize.le
  have hholds := retain_holds hjoined.tidy "" 0 hroom hsmall
  rw [hsize] at hholds
  exact lt_of_lt_of_le hlimits hholds

/-- With a configuration that is accepted, the clips of all rooms together stay within the budget in
every run of the registry, if and only if the budget has place for a single clip of the largest
size. -/
theorem memory_ceiling_iff (process : Process) (config : Settings)
    (h : loadConfig process = .ok config) :
    (∀ run : List Op, total (watched config.registryOptions run).registry.rooms ≤
        config.retainGlobalBudgetBytes) ↔
      config.retainMaxBytes ≤ config.retainGlobalBudgetBytes := by
  constructor
  · intro hall
    by_contra hlimits
    have hplace : 1 ≤ config.registryOptions.maxRooms := loadConfig_maxRooms config h
    obtain ⟨run, hrun⟩ := total_beyond hplace (Nat.lt_of_not_le hlimits)
    exact absurd (hall run) (Nat.not_le.mpr hrun)
  · intro hlimits run
    have hwithin : config.registryOptions.retainMaxBytes ≤
        config.registryOptions.retainGlobalBudgetBytes := hlimits
    exact total_within hwithin run

/-- A process whose environment sets one variable, to a text that is one digit. -/
def oneVariable (name : String) (digit : Nat) : Process where
  env := fun n => if n = name then some (toString digit) else none
  integer := fun raw => if raw = toString digit then some (digit : Int) else none

/-- What is loaded when only the budget is set, to the number. -/
def budgetOnly (budget : Nat) : Settings :=
  { port := 8080, host := "0.0.0.0", metricsPort := 9090, logLevel := "info",
    maxFrameBytes := MIB, handshakeFrameBytes := 4 * KIB, maxContentBytes := 700 * KIB,
    retainMaxBytes := 64 * KIB, retainGlobalBudgetBytes := budget,
    retainTtlMs := 24 * 60 * 60 * 1000, maxRooms := 100000, authTimeoutMs := 10000,
    heartbeatIntervalMs := 30000, msgBurst := 10, msgsPerSec := 2, byteBurst := 2 * MIB,
    bytesPerSec := 256 * KIB, roomBytesPerDay := 50 * MIB, transferMsgBurst := 128,
    transferMsgsPerSec := 64, transferByteBurst := 16 * MIB, transferBytesPerSec := 8 * MIB,
    roomTransferBytesPerDay := 4096 * MIB, globalTransferBytesPerDay := 32 * 1024 * MIB,
    maxConnsPerIp := 20, newConnBurst := 10, newConnRefillMs := 5000, maxConnsPerRoom := 16,
    maxConnsGlobal := 10000, backpressureSoftBytes := MIB, backpressureHardBytes := 8 * MIB,
    backpressureGraceMs := 15000, dedupWindow := 256, presenceDebounceMs := 1500,
    trustedProxyCidrs := [] }

theorem load_budget_zero :
    loadConfig (oneVariable "RETAIN_GLOBAL_BUDGET_BYTES" 0) = .ok (budgetOnly 0) := by
  decide +kernel

theorem memory_ceiling_default :
    (∀ run : List Op, total (watched (budgetOnly (256 * MIB)).registryOptions run).registry.rooms ≤
        (budgetOnly (256 * MIB)).retainGlobalBudgetBytes) ↔
      (budgetOnly (256 * MIB)).retainMaxBytes ≤ (budgetOnly (256 * MIB)).retainGlobalBudgetBytes :=
  memory_ceiling_iff ⟨fun _ => none, fun _ => none⟩ (budgetOnly (256 * MIB)) rfl

/-- A budget of nothing is accepted, and a clip of one byte goes past it. -/
theorem ceiling_passed :
    loadConfig (oneVariable "RETAIN_GLOBAL_BUDGET_BYTES" 0) = .ok (budgetOnly 0) ∧
      (budgetOnly 0).retainGlobalBudgetBytes <
        total (watched (budgetOnly 0).registryOptions
          [.join { handle := 0, id := "c_00000000", roomId := "room" } 0,
            .retain "room" "x" "m" 0]).registry.rooms := by
  refine ⟨load_budget_zero, ?_⟩
  have hplace : 1 ≤ (budgetOnly 0).registryOptions.maxRooms := by decide
  have hjoined := watched_sound (budgetOnly 0).registryOptions
    [.join { handle := 0, id := "c_00000000", roomId := "room" } 0]
  obtain ⟨room, hroom⟩ := join_first hplace { handle := 0, id := "c_00000000", roomId := "room" } 0
  have hsmall : "x".utf8ByteSize ≤ (watched (budgetOnly 0).registryOptions
      [.join { handle := 0, id := "c_00000000", roomId := "room" }
          0]).registry.options.retainMaxBytes := by
    rw [hjoined.configured]
    decide
  exact retain_holds hjoined.tidy "m" 0 hroom hsmall

end Ceiling

end Relay
end Asli
