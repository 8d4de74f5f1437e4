import RunNginx.Api

/-!
# The entropy of session tokens

A login draws its token from the entropy device, which is read like a file: up to its end.
Where the device cannot be read, or ends too soon, the token is made of zeros.

`fresh_iff`: a login comes to an end, and with a token of the device, exactly for a device
that ends by itself behind at least 32 bytes.  A device without an end keeps every login
waiting (`randBytes32_endless`).
-/

namespace RunNginx
namespace Api

open ByteString

/-- What one read of the device returns; no bytes are the end. -/
inductive DeviceRead
  | failed
  | bytes (chunk : Bytes)
deriving DecidableEq

/-- The entropy device. -/
inductive Device
  | closed
  /-- What its reads return, one after the other. -/
  | opened (reads : Nat → DeviceRead)

section Reading

/-- Read up to the end, with fuel: no result yet, an error, or what was read. -/
def readLoop (reads : Nat → DeviceRead) : Nat → Nat → Bytes → Option (Option Bytes)
  | 0, _, _ => none
  | fuel + 1, i, buf =>
      match reads i with
      | .failed => some none
      | .bytes [] => some (some buf)
      | .bytes (b :: chunk) => readLoop reads fuel (i + 1) (buf ++ b :: chunk)

/-- The content of the device, as of a file. -/
def fsRead (fuel : Nat) : Device → Option (Option Bytes)
  | .closed => some none
  | .opened reads => readLoop reads fuel 0 []

/-- The zeros a buffer starts with. -/
def zeros32 : Bytes :=
  List.replicate 32 0

/-- The buffer that is made of what was read. -/
def bufferOf : Option Bytes → Bytes
  | some bytes => if 32 ≤ bytes.length then bytes.take 32 else zeros32
  | none => zeros32

def randBytes32 (fuel : Nat) (device : Device) : Option Bytes :=
  (fsRead fuel device).map bufferOf

/-- A digit of a hexadecimal numeral. -/
def hexDigit (n : UInt8) : UInt8 :=
  if n < 10 then 48 + n else 87 + n

/-- Two digits for each byte. -/
def hexText (bytes : Bytes) : Bytes :=
  bytes.flatMap fun b => [hexDigit (b / 16), hexDigit (b % 16)]

/-- The credentials of the configuration. -/
def LoginAccepted (env : ApiEnv) (settings : ApiSettings) (body : Bytes) : Prop :=
  env.parseLogin body = some (settings.adminUser, settings.adminPassword)

instance (env : ApiEnv) (settings : ApiSettings) (body : Bytes) :
    Decidable (LoginAccepted env settings body) := by
  unfold LoginAccepted
  infer_instance

/-- A login, with the token that the device gives. -/
def loginWith (fuel : Nat) (device : Device) (env : ApiEnv) (settings : ApiSettings)
    (sessions : SessionStore) (headers : Headers) (body : Bytes) :
    Option (Bytes × SessionStore) :=
  if LoginAccepted env settings body then
    (randBytes32 fuel device).map fun bytes =>
      handleLoginPost { env with token := hexText bytes } settings sessions headers body
  else some (handleLoginPost env settings sessions headers body)

end Reading

section Devices

variable {reads : Nat → DeviceRead} {device : Device} {content bytes : Bytes} {n m : Nat}

/-- The chunk of a read. -/
def DeviceRead.chunk : DeviceRead → Bytes
  | .failed => []
  | .bytes chunk => chunk

/-- The bytes of the first reads. -/
def delivered (reads : Nat → DeviceRead) (n : Nat) : Bytes :=
  (List.range n).flatMap fun i => (reads i).chunk

/-- The first reads return bytes. -/
def Flows (reads : Nat → DeviceRead) (n : Nat) : Prop :=
  ∀ i < n, (reads i).chunk ≠ []

/-- The device has an end, behind these bytes. -/
def EndsAfter (device : Device) (content : Bytes) : Prop :=
  ∃ reads n, device = .opened reads ∧ Flows reads n ∧ reads n = .bytes [] ∧
    content = delivered reads n

/-- The device cannot be opened, or a read of it fails. -/
def Fails (device : Device) : Prop :=
  device = .closed ∨ ∃ reads n, device = .opened reads ∧ Flows reads n ∧ reads n = .failed

/-- Every read returns bytes. -/
def Endless (device : Device) : Prop :=
  ∃ reads, device = .opened reads ∧ ∀ n, Flows reads n

/-- The device gives these 32 bytes, and no read of it fails. -/
def Obtained (device : Device) (bytes : Bytes) : Prop :=
  bytes.length = 32 ∧ ¬ Fails device ∧
    ∃ reads n, device = .opened reads ∧ Flows reads n ∧ bytes <+: delivered reads n

theorem delivered_succ
    (reads : Nat → DeviceRead) (n : Nat) :
    delivered reads (n + 1) = delivered reads n ++ (reads n).chunk := by
  rw [delivered, List.range_succ, List.flatMap_append, List.flatMap_singleton, delivered]

theorem delivered_isPrefix
    (reads : Nat → DeviceRead) (h : n ≤ m) :
    delivered reads n <+: delivered reads m := by
  induction m with
  | zero =>
      obtain rfl := Nat.le_zero.mp h
      exact List.prefix_rfl
  | succ m ih =>
      rcases Nat.le_succ_iff.mp h with hle | rfl
      · rw [delivered_succ]
        exact (ih hle).trans (List.prefix_append _ _)
      · exact List.prefix_rfl

/-- The reads stop at one place. -/
theorem Flows.le_of_stop
    (hn : Flows reads n) (hm : (reads m).chunk = []) :
    n ≤ m :=
  Nat.not_lt.mp fun hlt => hn m hlt hm

theorem Flows.stop_unique
    (hn : Flows reads n) (hstop : (reads n).chunk = [])
    (hm : Flows reads m) (hstop' : (reads m).chunk = []) :
    n = m :=
  Nat.le_antisymm (hn.le_of_stop hstop') (hm.le_of_stop hstop)

theorem exists_stop
    (h : ¬ Flows reads n) :
    ∃ m, Flows reads m ∧ (reads m).chunk = [] := by
  induction n with
  | zero => exact absurd (fun i hi => absurd hi (Nat.not_lt_zero i)) h
  | succ n ih =>
      by_cases hn : Flows reads n
      · refine ⟨n, hn, Decidable.byContradiction fun hne => h fun i hi => ?_⟩
        rcases Nat.lt_succ_iff_lt_or_eq.mp hi with hlt | rfl
        · exact hn i hlt
        · exact hne
      · exact ih hn

/-- A device fails, ends or does neither. -/
theorem device_cases
    (device : Device) :
    Fails device ∨ (∃ content, EndsAfter device content) ∨ Endless device := by
  cases device with
  | closed => exact .inl (.inl rfl)
  | opened reads =>
      by_cases hflows : ∀ n, Flows reads n
      · exact .inr (.inr ⟨reads, rfl, hflows⟩)
      · obtain ⟨n, hn⟩ := Classical.not_forall.mp hflows
        obtain ⟨m, hm, hstop⟩ := exists_stop hn
        cases hread : reads m with
        | failed => exact .inl (.inr ⟨reads, m, rfl, hm, hread⟩)
        | bytes chunk =>
            rw [hread] at hstop
            obtain rfl : chunk = [] := hstop
            exact .inr (.inl ⟨_, reads, m, rfl, hm, hread, rfl⟩)

theorem EndsAfter.not_fails
    (h : EndsAfter device content) :
    ¬ Fails device := by
  obtain ⟨reads, n, rfl, hn, hend, -⟩ := h
  rintro (hclosed | ⟨reads', m, hopened, hm, hfailed⟩)
  · cases hclosed
  · obtain rfl := Device.opened.inj hopened
    have heq := hn.stop_unique (by rw [hend]; rfl) hm (by rw [hfailed]; rfl)
    rw [heq, hfailed] at hend
    cases hend

/-- What a device that ends gives is the beginning of its content. -/
theorem EndsAfter.obtained_iff
    (h : EndsAfter device content) :
    Obtained device bytes ↔ bytes.length = 32 ∧ bytes <+: content := by
  have hfine := h.not_fails
  obtain ⟨reads, n, rfl, hn, hend, rfl⟩ := h
  constructor
  · rintro ⟨hlength, -, reads', m, hopened, hm, hprefix⟩
    obtain rfl := Device.opened.inj hopened
    have hle := hm.le_of_stop (m := n) (by rw [hend]; rfl)
    exact ⟨hlength, hprefix.trans (delivered_isPrefix reads hle)⟩
  · rintro ⟨hlength, hprefix⟩
    exact ⟨hlength, hfine, reads, n, rfl, hn, hprefix⟩

end Devices

section Results

variable {reads : Nat → DeviceRead} {device : Device} {content : Bytes} {n : Nat}

/-- The loop goes on over reads that return bytes. -/
theorem readLoop_flows
    (h : Flows reads n) (fuel : Nat) :
    readLoop reads (n + fuel) 0 [] = readLoop reads fuel n (delivered reads n) := by
  induction n generalizing fuel with
  | zero => rw [Nat.zero_add]; rfl
  | succ n ih =>
      have hn : Flows reads n := fun i hi => h i (Nat.lt_succ_of_lt hi)
      have hchunk := h n (Nat.lt_succ_self n)
      rw [Nat.add_assoc, Nat.add_comm 1, ih hn, readLoop, delivered_succ]
      cases hread : reads n with
      | failed =>
          rw [hread] at hchunk
          exact absurd rfl hchunk
      | bytes chunk =>
          cases chunk with
          | nil =>
              rw [hread] at hchunk
              exact absurd rfl hchunk
          | cons b chunk => rfl

theorem readLoop_waits
    (h : Flows reads n) {fuel : Nat} (hfuel : fuel ≤ n) :
    readLoop reads fuel 0 [] = none := by
  have hprefix : Flows reads fuel := fun i hi => h i (Nat.lt_of_lt_of_le hi hfuel)
  have hloop := readLoop_flows hprefix 0
  rwa [Nat.add_zero] at hloop

/-- With fuel enough, the device is read with this result, and with no other. -/
def Yields (device : Device) (result : Option Bytes) : Prop :=
  (∃ fuel, fsRead fuel device = some result) ∧
    ∀ fuel r, fsRead fuel device = some r → r = result

/-- Where the reads stop, the loop does. -/
theorem yields_of_stop
    {result : Option Bytes} (h : Flows reads n)
    (hstop : ∀ fuel, readLoop reads (fuel + 1) n (delivered reads n) = some result) :
    Yields (.opened reads) result := by
  refine ⟨⟨n + 1, (readLoop_flows h 1).trans (hstop 0)⟩, fun fuel r hr => ?_⟩
  by_cases hfuel : fuel ≤ n
  · rw [fsRead, readLoop_waits h hfuel] at hr
    cases hr
  · obtain ⟨more, rfl⟩ := Nat.exists_eq_add_of_lt (Nat.not_le.mp hfuel)
    rw [fsRead, Nat.add_assoc, readLoop_flows h, hstop] at hr
    exact (Option.some.inj hr).symm

theorem yields_of_endsAfter
    (h : EndsAfter device content) :
    Yields device (some content) := by
  obtain ⟨reads, n, rfl, hn, hend, rfl⟩ := h
  refine yields_of_stop hn fun fuel => ?_
  rw [readLoop, hend]

theorem yields_of_fails
    (h : Fails device) :
    Yields device none := by
  rcases h with rfl | ⟨reads, n, rfl, hn, hfailed⟩
  · exact ⟨⟨0, rfl⟩, fun fuel r hr => (Option.some.inj hr).symm⟩
  · refine yields_of_stop hn fun fuel => ?_
    rw [readLoop, hfailed]

/-- A device without an end is read for ever. -/
theorem randBytes32_endless
    (h : Endless device) (fuel : Nat) :
    randBytes32 fuel device = none := by
  obtain ⟨reads, rfl, hflows⟩ := h
  rw [randBytes32, fsRead, readLoop_waits (hflows fuel) (Nat.le_refl fuel), Option.map_none]

end Results

section Logins

variable {device : Device} {env : ApiEnv} {settings : ApiSettings} {sessions : SessionStore}
variable {headers : Headers} {body content : Bytes}

/-- The answer to a login with this token, and the session it leaves. -/
def issued (env : ApiEnv) (sessions : SessionStore) (headers : Headers) (bytes : Bytes) :
    Bytes × SessionStore :=
  (loginResponse headers (hexText bytes), addSession { env with token := hexText bytes } sessions)

/-- What an accepted login gives once the device has been read. -/
theorem loginWith_accepted
    (hlogin : LoginAccepted env settings body) (fuel : Nat) (device : Device) :
    loginWith fuel device env settings sessions headers body =
      (fsRead fuel device).map fun result => issued env sessions headers (bufferOf result) := by
  have haccepted : env.parseLogin body = some (settings.adminUser, settings.adminPassword) :=
    hlogin
  rw [loginWith, if_pos hlogin, randBytes32, Option.map_map]
  congr 1
  funext result
  simp [handleLoginPost, issued, haccepted]

/-- A login ends, and the session it opens has a token of the device. -/
structure Fresh (device : Device) (env : ApiEnv) (settings : ApiSettings)
    (sessions : SessionStore) (headers : Headers) (body : Bytes) : Prop where
  terminates : ∃ fuel bytes, randBytes32 fuel device = some bytes
  drawn : LoginAccepted env settings body →
    ∀ fuel answer, loginWith fuel device env settings sessions headers body = some answer →
      ∃ bytes, Obtained device bytes ∧ answer = issued env sessions headers bytes

theorem terminates_of_yields
    {result : Option Bytes} (h : Yields device result) :
    ∃ fuel bytes, randBytes32 fuel device = some bytes := by
  obtain ⟨fuel, hread⟩ := h.1
  exact ⟨fuel, bufferOf result, by rw [randBytes32, hread]; rfl⟩

/-- Logins are fresh exactly with a device that ends, and behind 32 bytes where it is used. -/
theorem fresh_iff :
    Fresh device env settings sessions headers body ↔
      (∃ content, EndsAfter device content ∧
        (LoginAccepted env settings body → 32 ≤ content.length)) ∨
      Fails device ∧ ¬ LoginAccepted env settings body := by
  rcases device_cases device with hfails | ⟨content, hends⟩ | hendless
  · have hyields := yields_of_fails hfails
    constructor
    · refine fun hfresh => .inr ⟨hfails, fun hlogin => ?_⟩
      obtain ⟨fuel, hread⟩ := hyields.1
      obtain ⟨bytes, ⟨-, hfine, -⟩, -⟩ := hfresh.drawn hlogin fuel _
        (by rw [loginWith_accepted hlogin, hread]; rfl)
      exact hfine hfails
    · rintro (⟨content, hends, -⟩ | ⟨-, hrefused⟩)
      · exact absurd hfails hends.not_fails
      · exact ⟨terminates_of_yields hyields, fun hlogin => absurd hlogin hrefused⟩
  · have hyields := yields_of_endsAfter hends
    constructor
    · refine fun hfresh => .inl ⟨content, hends, fun hlogin => ?_⟩
      obtain ⟨fuel, hread⟩ := hyields.1
      obtain ⟨bytes, hobtained, -⟩ := hfresh.drawn hlogin fuel _
        (by rw [loginWith_accepted hlogin, hread]; rfl)
      obtain ⟨hlength, hprefix⟩ := hends.obtained_iff.mp hobtained
      rw [← hlength]
      exact hprefix.length_le
    · rintro (⟨content', hends', hlong⟩ | ⟨hfails, -⟩)
      · have hsame : content' = content :=
          Option.some.inj ((hyields.2 _ _ (yields_of_endsAfter hends').1.choose_spec))
        subst hsame
        refine ⟨terminates_of_yields hyields, fun hlogin fuel answer hanswer => ?_⟩
        rw [loginWith_accepted hlogin] at hanswer
        obtain ⟨result, hread, rfl⟩ := Option.map_eq_some_iff.mp hanswer
        obtain rfl := hyields.2 fuel result hread
        have hbuffer : bufferOf (some content') = content'.take 32 := if_pos (hlong hlogin)
        rw [hbuffer]
        refine ⟨_, hends.obtained_iff.mpr ⟨?_, List.take_prefix _ _⟩, rfl⟩
        rw [List.length_take, Nat.min_eq_left (hlong hlogin)]
      · exact absurd hfails hends.not_fails
  · have hnever := randBytes32_endless hendless
    have hreads : ∀ fuel, fsRead fuel device = none := by
      intro fuel
      have h := hnever fuel
      rw [randBytes32] at h
      exact Option.map_eq_none_iff.mp h
    have hyields : ∀ result, ¬ Yields device result := by
      rintro result ⟨⟨fuel, hread⟩, -⟩
      rw [hreads fuel] at hread
      cases hread
    constructor
    · intro hfresh
      obtain ⟨fuel, bytes, hbytes⟩ := hfresh.terminates
      rw [hnever fuel] at hbytes
      cases hbytes
    · rintro (⟨content, hends, -⟩ | ⟨hfails, -⟩)
      · exact absurd (yields_of_endsAfter hends) (hyields _)
      · exact absurd (yields_of_fails hfails) (hyields _)

end Logins

section Example

/-- The entropy device as it is: every read returns bytes. -/
def urandom : Device :=
  .opened fun _ => .bytes [42]

/-- Settings with one account. -/
def oneAccount : ApiSettings where
  apiKey := []
  adminUser := ascii "admin"
  adminPassword := ascii "secret"

/-- A login as that account. -/
def adminLogin : ApiEnv where
  rateAllows := true
  now := 0
  issuedAt := 0
  token := []
  parseLogin := fun _ => some (ascii "admin", ascii "secret")
  webuiHtml := []
  loginHtml := []
  metrics := []
  logs := fun _ => []
  call := fun _ => (200, [])

/-- With the device as it is no login ends; without it, one ends with a token of zeros. -/
theorem login_never_fresh :
    ¬ Fresh urandom adminLogin oneAccount ∅ [] [] ∧
      loginWith 1 .closed adminLogin oneAccount ∅ [] [] =
        some (issued adminLogin ∅ [] (List.replicate 32 0)) ∧
      hexText (List.replicate 32 0) = List.replicate 64 48 ∧
      ¬ Fresh .closed adminLogin oneAccount ∅ [] [] := by
  have hlogin : LoginAccepted adminLogin oneAccount [] := rfl
  have hzeros : loginWith 1 .closed adminLogin oneAccount ∅ [] [] =
      some (issued adminLogin ∅ [] (List.replicate 32 0)) :=
    loginWith_accepted hlogin 1 .closed
  refine ⟨fun h => ?_, hzeros, by decide, fun h => ?_⟩
  · obtain ⟨fuel, bytes, hbytes⟩ := h.terminates
    have hendless : Endless urandom := ⟨_, rfl, fun n i _ => List.cons_ne_nil 42 []⟩
    rw [randBytes32_endless hendless] at hbytes
    cases hbytes
  · obtain ⟨bytes, ⟨-, hfine, -⟩, -⟩ := h.drawn hlogin 1 _ hzeros
    exact hfine (.inl rfl)

end Example

end Api
end RunNginx
