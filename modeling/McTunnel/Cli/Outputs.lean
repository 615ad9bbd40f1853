import McTunnel.Cli.Profile

/-!
# What the commands tell (`main.rs`)

Whatever the processes do, what a command tells comes from its own arguments, the
identity that it made or loaded and the place that it was stored in.

    an address that was asked to begin with a prefix does         (prefix_reported)
-/

namespace McTunnel

section
variable [Crates]

/-! ## Vanity prefixes -/

/-- What the grind finds begins with the prefix. -/
theorem keyid_of_grind (n : Nat) (vp : String) (keyidLen : Nat) (l : List (GrindStep n))
    (secret : Vector UInt8 32) (h : grind n vp keyidLen l = .ok (some (some secret))) :
    vp.toList <+: (keyidFromPubkey (Identity.publicBytes ⟨secret⟩) keyidLen).toList := by
  have hv : validate vp keyidLen = .ok () := by
    unfold grind at h
    split at h
    · cases h
    · next hv => exact hv
  have hkept := Run.run_invariant (Grind.step vp) (Kept vp) (fun s i => kept_step vp s i)
    (Grind.start n) (kept_start vp) l
  have hmatched := hkept.got secret ((grind_ok_iff vp keyidLen hv l _).mp h)
  have hle : vp.utf8ByteSize ≤ keyidLen := by
    unfold validate at hv
    split at hv
    · cases hv
    · split at hv
      · cases hv
      · split at hv
        · cases hv
        · omega
  rw [← take_of_matched vp secret hmatched keyidLen hle]
  exact List.take_prefix _ _

/-- The identity can come from a source. -/
def Makes (args : InitArgs) (id : Identity) : Prop :=
  ∃ source, Profile.makeIdentity args source = some (.ok id)

section
variable (dir : String)

/-- The place of the key. -/
def SaveAt.Located : SaveAt → Prop
  | .openMeta location => location = "OS keyring" ∨ location = keyPath dir
  | .writeMeta location _ => location = "OS keyring" ∨ location = keyPath dir
  | _ => True

/-- What was told is as `P` says, and what is saved was made. -/
def Ready (P : Output → Prop) : CliAt → Prop
  | .looking args (some id) _ => Makes args id
  | .saving args id at' => Makes args id ∧ at'.Located dir
  | .ended (.ok out) => P out
  | _ => True

section
variable (P : Output → Prop)
  (hinit : ∀ args (id : Identity) name location, Makes args id →
    id.name "" args.keyidLen.toNat = .ok name →
    (location = "OS keyring" ∨ location = keyPath dir) → P (.initialized args name location))
  (hname : ∀ (id : Identity) args len name, id.name args.vanity len.toNat = .ok name →
    P (.named args len name))
  (hpublish : ∀ id len, P (.publishing id len)) (hserve : ∀ id, P (.serving id))
  (hforget : ∀ what, P (.forgot what))

theorem ready_looked (args : InitArgs) (made : Option Identity) (found : Bool)
    (h : ∀ id, made = some id → Makes args id) : Ready dir P (.looked args made found) := by
  unfold CliAt.looked
  cases made with
  | none =>
    dsimp only
    split <;> trivial
  | some id =>
    dsimp only
    split
    · trivial
    · exact ⟨h id rfl, trivial⟩

theorem ready_write (wrote : Wrote) (failed done : CliAt) (more : Handle → CliAt)
    (hfailed : Ready dir P failed) (hmore : ∀ h, Ready dir P (more h)) (hdone : Ready dir P done) :
    Ready dir P (wrote.next failed more done) := by
  cases wrote with
  | failed => exact hfailed
  | more h => exact hmore h
  | done => exact hdone

include hname in
theorem ready_named (args : NameArgs) (id : Identity) (len : UInt64) :
    Ready dir P (.ended (Profile.named args id len)) := by
  unfold Profile.named
  split
  · trivial
  · next name hn => exact hname id args len name hn

include hinit in
theorem ready_save (io : Io) (s : Disk) (args : InitArgs) (id : Identity) (at' : SaveAt)
    (hmade : Makes args id) (h : at'.Located dir) :
    Ready dir P (CliAt.save dir io s args id at').1 := by
  unfold CliAt.save
  cases at' with
  | createDir =>
    dsimp only
    split
    · exact ⟨hmade, trivial⟩
    · trivial
  | setSecret =>
    dsimp only
    split <;> exact ⟨hmade, trivial⟩
  | removeKey => exact ⟨hmade, Or.inl rfl⟩
  | openKey =>
    dsimp only
    split
    · exact ⟨hmade, trivial⟩
    · trivial
  | writeKey h =>
    exact ready_write dir P _ _ _ _ trivial (fun _ => ⟨hmade, trivial⟩) ⟨hmade, Or.inr rfl⟩
  | openMeta location =>
    dsimp only
    split
    · exact ⟨hmade, h⟩
    · trivial
  | writeMeta location h' =>
    refine ready_write dir P _ _ _ _ trivial (fun _ => ⟨hmade, h⟩) ?_
    unfold Profile.initialized
    split
    · trivial
    · next name hn => exact hinit args id name location hmade hn h

include hname hserve in
theorem ready_loaded (id : Identity) (cmd : Loading) : Ready dir P (.loaded id cmd) := by
  unfold CliAt.loaded
  cases cmd with
  | serve => exact hserve id
  | publish => trivial
  | name args =>
    dsimp only
    split
    · trivial
    · next n _ =>
      cases hc : Profile.checkKeyidLen n with
      | error e => trivial
      | ok u => exact ready_named dir P hname args id n

include hinit hname hpublish hserve hforget

theorem ready_call (io : Io) (s : Disk) (a : CliAt) (h : Ready dir P a) :
    Ready dir P (CliAt.call dir io s a).1 := by
  cases a with
  | looking args made at' =>
    have hmade : ∀ id, made = some id → Makes args id := by
      rintro id rfl
      exact h
    unfold CliAt.call CliAt.look
    cases at' with
    | keyring =>
      dsimp only
      split
      · exact ready_looked dir P args made true hmade
      · cases made with
        | none => trivial
        | some id => exact h
    | keyFile => exact ready_looked dir P args made _ hmade
  | saving args id at' => exact ready_save dir P hinit io s args id at' h.1 h.2
  | loading cmd at' =>
    unfold CliAt.call
    dsimp only
    rcases load_cases dir io s cmd at' with ⟨e, hl⟩ | ⟨next, -, hl, -⟩ | ⟨id, hl, -⟩
    · rw [hl]
      trivial
    · rw [hl]
      trivial
    · rw [hl]
      exact ready_loaded dir P hname hserve id cmd
  | measuring args id =>
    unfold CliAt.call CliAt.measure
    dsimp only
    split
    · trivial
    · exact hpublish id _
    · exact ready_named dir P hname _ id _
  | wiping removed at' =>
    unfold CliAt.call CliAt.wipe
    cases at' with
    | removeMeta => exact hforget _
    | keyFile => trivial
    | _ =>
      dsimp only
      split <;> trivial
  | _ => exact h

theorem ready_step (s : Profile) (e : CliStep) (h : ∀ p, Ready dir P (s.procs p)) (p : Nat) :
    Ready dir P ((s.step dir e).procs p) := by
  have hput : ∀ (s' : Profile) q a, s'.procs = s.procs → Ready dir P a →
      Ready dir P ((s'.put q a).procs p) := by
    intro s' q a hs' ha
    unfold Profile.put
    dsimp only
    by_cases hq : p = q
    · rw [hq, Function.update_self]
      exact ha
    · rw [Function.update_of_ne hq, hs']
      exact h p
  have hdoes := acts_step dir s e
  generalize s.step dir e = s' at hdoes
  cases hdoes with
  | nothing => exact h p
  | starts q cmd =>
    refine hput s q _ rfl ?_
    unfold CliAt.begin
    split
    · split <;> trivial
    · trivial
    · trivial
  | unmade q => exact hput s q _ rfl trivial
  | made q args source id _ hmade => exact hput s q _ rfl ⟨source, hmade⟩
  | goes q io =>
    exact hput _ q _ rfl
      (ready_call dir P hinit hname hpublish hserve hforget io s.disk _ (h q))
  | dies q => exact hput s q _ rfl trivial

/-- What holds of all that the commands can tell holds of what they tell in a run. -/
theorem outputs_run (store : Keystore) (l : List CliStep) (p : Nat) (out : Output)
    (hp : (Run.run (Profile.step dir) (Profile.start store) l).procs p = .ended (.ok out)) :
    P out := by
  have hready := Run.run_invariant (Profile.step dir) (fun s => ∀ p, Ready dir P (s.procs p))
    (fun s e h => ready_step dir P hinit hname hpublish hserve hforget s e h)
    (Profile.start store) (fun p => trivial) l p
  rw [hp] at hready
  exact hready

end

/-- **The prefix asked for**: an address that `init` shows begins with its
`--vanity-prefix` and has the length asked for, whatever else goes on meanwhile. -/
theorem prefix_reported (store : Keystore) (l : List CliStep) (p : Nat) (args : InitArgs)
    (name : Name) (location vanityPrefix : String)
    (hp : (Run.run (Profile.step dir) (Profile.start store) l).procs p =
      .ended (.ok (.initialized args name location)))
    (hvanity : args.vanityPrefix = some vanityPrefix) :
    vanityPrefix.toList <+: name.keyid.toList ∧ name.keyid.toList.length = args.keyidLen.toNat := by
  refine outputs_run dir
    (fun out => ∀ args name location vp, out = .initialized args name location →
      args.vanityPrefix = some vp →
      vp.toList <+: name.keyid.toList ∧ name.keyid.toList.length = args.keyidLen.toNat)
    ?_ (by rintro _ _ _ _ _ _ _ _ _ ⟨⟩) (by rintro _ _ _ _ _ _ ⟨⟩) (by rintro _ _ _ _ _ ⟨⟩)
    (by rintro _ _ _ _ _ ⟨⟩) store l p _ hp args name location vanityPrefix rfl hvanity
  rintro args id name location ⟨source, hmade⟩ hname - _ _ _ vp ⟨⟩ hvp
  obtain ⟨-, hkeyid, -, hle⟩ := fromPubkey_valid _ _ _ name hname
  rw [hkeyid]
  refine ⟨?_, length_keyidFromPubkey _ _ hle⟩
  unfold Profile.makeIdentity at hmade
  rw [hvp] at hmade
  dsimp only at hmade
  split at hmade
  · cases hmade
  · cases hmade
  · cases hmade
  · next secret hg =>
    cases hmade
    exact keyid_of_grind source.n vp args.keyidLen.toNat source.steps secret hg

end

theorem step_make (dir : String) (s : Profile) (p : Nat) (args : InitArgs) (source : Source)
    (id : Identity) (hp : s.procs p = .making args)
    (hmade : Profile.makeIdentity args source = some (.ok id)) :
    s.step dir (.make p source) = s.put p (.looking args (some id) .keyring) := by
  unfold Profile.step
  dsimp only
  rw [hp]
  dsimp only
  rw [hmade]

theorem makes_of_grind (args : InitArgs) (source : Source) (vp : String) (secret : Vector UInt8 32)
    (hvp : args.vanityPrefix = some vp)
    (hg : grind source.n vp args.keyidLen.toNat source.steps = .ok (some (some secret))) :
    Profile.makeIdentity args source = some (.ok ⟨secret⟩) := by
  unfold Profile.makeIdentity
  rw [hvp]
  dsimp only
  rw [hg]

end

namespace Sample
attribute [local instance] crates

def aliceInit : InitArgs := ⟨16, some wanted, false⟩

/-- An identity is ground, and these are the calls of its save. -/
def grinds (saves : List CliStep) : List CliStep :=
  .start 0 (.init aliceInit) :: (calls 0 2 ++ .make 0 aliceSource :: saves)

theorem keyid_alice : Identity.name ⟨aliceSecret⟩ "" 16 = .ok ⟨"", aliceKeyid⟩ := by
  have h : Text.truncate aliceKeyidFull 16 = aliceKeyid := by decide +kernel
  show Except.ok (Name.mk "" (Text.truncate (keyidFullFromPubkey (publicKey aliceSecret)) 16)) = _
  rw [publicKey_alice, keyidFull_alice, h]

theorem initialized_grinds (dir : String) (saves : List CliStep) (location : String)
    (hsaves : ∀ procs, (Run.run (Profile.step dir) (Profile.put ⟨⟨emptyStore, 0, 0⟩, procs⟩ 0
      (.looking aliceInit (some ⟨aliceSecret⟩) .keyring)) saves).procs 0 =
        .ended (Profile.initialized aliceInit ⟨aliceSecret⟩ location)) :
    (Run.run (Profile.step dir) (Profile.start emptyStore) (grinds saves)).procs 0 =
      .ended (.ok (.initialized aliceInit ⟨"", aliceKeyid⟩ location)) := by
  have hmade : Profile.makeIdentity aliceInit aliceSource = some (.ok ⟨aliceSecret⟩) :=
    makes_of_grind aliceInit aliceSource wanted aliceSecret rfl grind_delivered
  have hrun : grinds saves = (.start 0 (.init aliceInit) :: calls 0 2) ++
      .make 0 aliceSource :: saves := rfl
  rw [hrun, Run.run_append, Run.run_cons,
    step_make dir _ 0 aliceInit aliceSource ⟨aliceSecret⟩ rfl hmade]
  refine (hsaves _).trans ?_
  unfold Profile.initialized
  rw [show Identity.name ⟨aliceSecret⟩ "" aliceInit.keyidLen.toNat = .ok ⟨"", aliceKeyid⟩
    from keyid_alice]

/-- The keyring takes the secret. -/
theorem initialized_keyring (dir : String) :
    (Run.run (Profile.step dir) (Profile.start emptyStore) (grinds (calls 0 7))).procs 0 =
      .ended (.ok (.initialized aliceInit ⟨"", aliceKeyid⟩ "OS keyring")) :=
  initialized_grinds dir _ _ fun _ => rfl

end Sample

section
attribute [local instance] Sample.crates

theorem prefix_reported_alice :
    Sample.wanted.toList <+: Sample.aliceKeyid.toList ∧ Sample.aliceKeyid.toList.length = 16 :=
  prefix_reported Sample.profileDir Sample.emptyStore (Sample.grinds (Sample.calls 0 7)) 0
    Sample.aliceInit ⟨"", Sample.aliceKeyid⟩ "OS keyring" Sample.wanted
    (Sample.initialized_keyring Sample.profileDir) rfl

end

end McTunnel
