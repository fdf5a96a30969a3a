import VkSandbox.Provider.Types

/-!
# Provider/Status — the synthetic Pod statuses

`provider/status.go` and `claimIP` of `provider/create.go`: nothing in a status comes from a
kubelet, it is computed from the Pod spec and the claim.
-/

namespace VkSandbox

/-- `net.SplitHostPort`, its host part; `none` when the address is malformed. -/
def splitHost (addr : String) : Option String :=
  let cs := addr.toList
  let port := cs.reverse.takeWhile (· ≠ ':')
  if ':' ∉ cs then none
  else
    let before := cs.take (cs.length - port.length - 1)
    match cs with
    | '[' :: rest =>
      let host := rest.takeWhile (· ≠ ']')
      -- the closing bracket must stand right before the last colon
      if before = '[' :: (host ++ [']']) ∧ '[' ∉ host ∧ '[' ∉ port ∧ ']' ∉ port then
        some (String.ofList host)
      else none
    | _ =>
      if ':' ∈ before ∨ '[' ∈ cs ∨ ']' ∈ cs then none else some (String.ofList before)

/-- `claimIP`: the host of a sandboxd `owner_addr`, the address itself when it has no port. -/
def claimIP (addr : String) : String :=
  match splitHost addr with
  | some host => if host = "" then addr else host
  | none => addr

/-! ## RFC 3339

`time.RFC3339` of an instant counted from `0001-01-01T00:00:00Z`. -/

/-- `n` in decimal, padded to `width` digits. -/
def padded (width n : ℕ) : String :=
  let digits := Nat.toDigits 10 n
  String.ofList (List.replicate (width - digits.length) '0' ++ digits)

/-- Year and day of the year (from 0) of a day counted from `0001-01-01`. -/
def yearDay (day : ℕ) : ℕ × ℕ :=
  let n400 := day / 146097
  let d := day % 146097
  let n100 := min (d / 36524) 3
  let d := d - n100 * 36524
  let n4 := d / 1461
  let d := d % 1461
  let n1 := min (d / 365) 3
  (n400 * 400 + n100 * 100 + n4 * 4 + n1 + 1, d - n1 * 365)

/-- The lengths of the months of a year. -/
def monthLengths (year : ℕ) : List ℕ :=
  let leap := year % 4 = 0 ∧ (year % 100 ≠ 0 ∨ year % 400 = 0)
  [31, if leap then 29 else 28, 31, 30, 31, 30, 31, 31, 30, 31, 30, 31]

/-- Month and day of the month, both from 1. -/
def monthDay : List ℕ → ℕ → ℕ → ℕ × ℕ
  | [], month, d => (month, d + 1)
  | len :: rest, month, d => if d < len then (month, d + 1) else monthDay rest (month + 1) (d - len)

/-- `Time.Format(time.RFC3339)`, in UTC. -/
def rfc3339 (t : Time) : String :=
  let secs := t / second
  let (year, yday) := yearDay (secs / 86400)
  let (month, mday) := monthDay (monthLengths year) 1 yday
  let s := secs % 86400
  padded 4 year ++ "-" ++ padded 2 month ++ "-" ++ padded 2 mday ++ "T" ++ padded 2 (s / 3600)
    ++ ":" ++ padded 2 (s / 60 % 60) ++ ":" ++ padded 2 (s % 60) ++ "Z"

/-- `Time.Format(time.RFC3339)` in a location `offset` seconds east of UTC, other than UTC. -/
def rfc3339At (offset : ℤ) (t : Time) : String :=
  -- 400 years are 146097 days, so the year 400 later has the same calendar; west of UTC the clock
  -- of the zero time still shows the year before
  let secs := ((t / second : ℕ) + offset + 146097 * 86400).toNat
  let (year, yday) := yearDay (secs / 86400)
  let (month, mday) := monthDay (monthLengths year) 1 yday
  let s := secs % 86400
  let zone := offset.tdiv 60
  padded 4 (year - 400) ++ "-" ++ padded 2 month ++ "-" ++ padded 2 mday ++ "T"
    ++ padded 2 (s / 3600) ++ ":" ++ padded 2 (s / 60 % 60) ++ ":" ++ padded 2 (s % 60)
    ++ (if zone < 0 then "-" else "+") ++ padded 2 (zone.natAbs / 60) ++ ":"
    ++ padded 2 (zone.natAbs % 60)

/-- The text of a claim's deadline, in the location the deadline carries. -/
def deadlineText (P : Platform) (c : Claim) : String :=
  let offset := P.offset c.id c.deadline
  if offset = 0 then rfc3339 c.deadline else rfc3339At offset c.deadline

/-! ## The statuses -/

def reasonLeaseExpired : String := "SandboxLeaseExpired"

/-- `containerStatuses`: one synthetic entry per spec container. -/
def containerStatuses (pod : Pod) (c : Claim) (state : ContainerState) (ready : Bool) :
    List ContainerStatus :=
  pod.containers.map fun ctr =>
    { name := ctr.name, ready := ready, state := state, image := ctr.image,
      imageID := "sandboxd://" ++ c.id }

/-- `expiredStatus`. -/
def expiredStatus (P : Platform) (pod : Pod) (c : Claim) : PodStatus where
  phase := .failed
  reason := reasonLeaseExpired
  message := "sandbox lease ended at " ++ deadlineText P c
    ++ "; the microVM is reaped at the deadline"
  startTime := some c.claimedAt
  containerStatuses :=
    containerStatuses pod c (.terminated 1 reasonLeaseExpired c.deadline) false

/-- `runningStatus`. -/
def runningStatus (pod : Pod) (c : Claim) : PodStatus :=
  let ip := claimIP c.address
  { phase := .running
    hostIP := ip
    startTime := some c.claimedAt
    conditions := [(.initialized, true), (.ready, true), (.scheduled, true)]
    podIP := ip
    podIPs := if ip = "" then [] else [ip]
    containerStatuses := containerStatuses pod c (.running c.claimedAt) true }

/-- The Pod `pushRunning` publishes. -/
def runningPod (pod : Pod) (c : Claim) : Pod :=
  let out := podWithClaim pod c.id
  { out with status := runningStatus out c }

/-- The Pod `publishExpiredLeases` publishes. -/
def expiredPod (P : Platform) (pod : Pod) (c : Claim) : Pod :=
  { pod with status := expiredStatus P pod c }

end VkSandbox
