import McTunnel.Cli.Outputs
import McTunnel.Lib.JsonRead

/-!
# What `--json` prints (`main.rs`)

The lines of `init` and `name` are put together from texts; of what stands in
them only the backslashes of the place that the key is stored in are escaped.

    the lines read as what was told ↔ the config directory has no quote and no
      control character, or its path is not in it               (printed_reads_iff)
-/

namespace McTunnel

/-! ## Code -/

/-- `location.replace('\\', "\\\\")`, for one character. -/
def escapeBackslash (c : Char) : List Char := if c = '\\' then ['\\', '\\'] else [c]

def initLine (name : Name) (keyidLen : UInt64) (location : String) : String :=
  "\x7b\"keyid\":\"" ++ name.keyid ++ "\",\"keyid_len\":" ++ Nat.repr keyidLen.toNat ++
    ",\"name\":\"" ++ name.toString ++ "\",\"key_storage\":\"" ++
    String.ofList (location.toList.flatMap escapeBackslash) ++ "\"\x7d"

def nameLine (name : Name) (keyidLen : UInt64) : String :=
  "\x7b\"keyid\":\"" ++ name.keyid ++ "\",\"keyid_len\":" ++ Nat.repr keyidLen.toNat ++
    ",\"vanity\":\"" ++ name.vanity ++ "\",\"name\":\"" ++ name.toString ++ "\"\x7d"

/-- The line that a command prints with `--json`, and what it stands for. -/
def Output.printed : Output → Option (String × List (String × JsonText.Value))
  | .initialized args name location => some (initLine name args.keyidLen location,
      [("keyid", .str name.keyid), ("keyid_len", .num args.keyidLen.toNat),
        ("name", .str name.toString), ("key_storage", .str location)])
  | .named _ keyidLen name => some (nameLine name keyidLen,
      [("keyid", .str name.keyid), ("keyid_len", .num keyidLen.toNat),
        ("vanity", .str name.vanity), ("name", .str name.toString)])
  | _ => none

/-! ## Names and places -/

open JsonText

theorem bare_name (c : Char) (h : isBase32Lower c = true ∨ c = '.') : Bare c ∧ c ≠ '\\' := by
  have hc : 45 < c.toNat ∧ c.toNat ≠ 92 := by
    rcases h with h | rfl
    · have h := (isBase32Lower_iff c).mp h
      omega
    · decide
  refine ⟨⟨?_, by omega⟩, ?_⟩
  · rintro rfl
    exact absurd hc (by decide)
  · rintro rfl
    exact absurd hc (by decide)

theorem member_str (key value : String) : memberWith escape (key, .str value) =
    quoteWith escape key ++ ':' :: '"' :: (value.toList.flatMap escape ++ ['"']) := by
  unfold memberWith
  simp [Value.write, quoteWith]

theorem member_num (key : String) (n : Nat) : memberWith escape (key, .num n) =
    quoteWith escape key ++ ':' :: (Nat.repr n).toList := by
  unfold memberWith
  simp [Value.write, writeInt]

section
variable (name : Name) (hv : name.Valid)
include hv

/-- The texts of a name stand in a line as they are. -/
theorem escape_name : name.keyid.toList.flatMap escape = name.keyid.toList ∧
    name.vanity.toList.flatMap escape = name.vanity.toList ∧
    name.toString.toList.flatMap escape = name.toString.toList := by
  have hk := List.all_eq_true.mp hv.keyid.chars
  have hvanity := List.all_eq_true.mp hv.vanity.chars
  refine ⟨?_, ?_, ?_⟩
  · exact flatMap_escape_bare _ fun c hc => bare_name c (Or.inl (hk c hc))
  · exact flatMap_escape_bare _ fun c hc => bare_name c (Or.inl (hvanity c hc))
  · exact flatMap_escape_bare _ fun c hc => bare_name c (toString_chars name hv c hc)

theorem nameLine_eq (keyidLen : UInt64) :
    nameLine name keyidLen = write escape
      [("keyid", .str name.keyid), ("keyid_len", .num keyidLen.toNat),
        ("vanity", .str name.vanity), ("name", .str name.toString)] := by
  obtain ⟨hkeyid, hvanity, hname⟩ := escape_name name hv
  have hkey : quoteWith escape "keyid" = "\"keyid\"".toList ∧
      quoteWith escape "keyid_len" = "\"keyid_len\"".toList ∧
      quoteWith escape "vanity" = "\"vanity\"".toList ∧
      quoteWith escape "name" = "\"name\"".toList := by decide
  apply String.toList_injective
  unfold nameLine write
  simp [member_str, member_num, hkey, hkeyid, hvanity, hname]

/-- The line of `init` up to the place of the key. -/
theorem initLine_eq (keyidLen : UInt64) (location : String) :
    (initLine name keyidLen location).toList = '\x7b' ::
      (memberWith escape ("keyid", .str name.keyid) ++ ',' ::
        (memberWith escape ("keyid_len", .num keyidLen.toNat) ++ ',' ::
          (memberWith escape ("name", .str name.toString) ++ ',' ::
            (quoteWith escape "key_storage" ++ ':' :: '"' ::
              (location.toList.flatMap escapeBackslash ++ ['"', '\x7d']))))) := by
  obtain ⟨hkeyid, -, hname⟩ := escape_name name hv
  have hkey : quoteWith escape "keyid" = "\"keyid\"".toList ∧
      quoteWith escape "keyid_len" = "\"keyid_len\"".toList ∧
      quoteWith escape "name" = "\"name\"".toList ∧
      quoteWith escape "key_storage" = "\"key_storage\"".toList := by decide
  unfold initLine
  simp [member_str, member_num, hkey, hkeyid, hname]

end

/-! ## The place of the key -/

theorem flatMap_escapeBackslash (l : List Char) (h : ∀ c ∈ l, Bare c) :
    l.flatMap escapeBackslash = l.flatMap escape := by
  induction l with
  | nil => rfl
  | cons c l ih =>
    have hc : escapeBackslash c = escape c := by
      unfold escapeBackslash
      split
      · next hb =>
        rw [hb]
        rfl
      · next hb => rw [escape_bare c (h c List.mem_cons_self) hb]
    rw [List.flatMap_cons, List.flatMap_cons, hc, ih fun d hd => h d (List.mem_cons_of_mem c hd)]

theorem readChar_bare_control (c : Char) (rest : List Char) (h : c.toNat < 32) :
    readChar (c :: rest) = none := by
  have hb : c ≠ '\\' := by
    rintro rfl
    exact absurd h (by decide)
  unfold readChar
  split <;> simp_all

/-- A text of which only the backslashes are escaped and that is read back is bare:
a quote ends it early, a control character is no part of a string. -/
theorem bare_of_readString (l after text : List Char) (fuel : Nat)
    (h : readString fuel (l.flatMap escapeBackslash ++ text) = some (l, after)) :
    ∀ c ∈ l, Bare c := by
  induction l generalizing fuel with
  | nil => rintro c ⟨⟩
  | cons c l ih =>
    cases fuel with
    | zero => cases h
    | succ fuel =>
      rw [List.flatMap_cons, List.append_assoc] at h
      unfold readString at h
      by_cases hb : c = '\\'
      · subst hb
        have hread : readChar (escapeBackslash '\\' ++ (l.flatMap escapeBackslash ++ text)) =
          some ('\\', l.flatMap escapeBackslash ++ text) := rfl
        rw [if_neg (by rintro ⟨⟩), hread] at h
        obtain ⟨p, hp, he⟩ := Option.map_eq_some_iff.mp h
        cases he
        intro d hd
        rcases List.mem_cons.mp hd with rfl | hd
        · exact ⟨by decide, by decide⟩
        · exact ih fuel hp d hd
      · have he : escapeBackslash c ++ (l.flatMap escapeBackslash ++ text) =
            c :: (l.flatMap escapeBackslash ++ text) := by
          unfold escapeBackslash
          rw [if_neg hb]
          rfl
        rw [he] at h
        by_cases hq : c = '"'
        · rw [hq, List.head?_cons, if_pos rfl] at h
          cases h
        · rw [if_neg (by rintro ⟨⟩; exact hq rfl)] at h
          by_cases hc : c.toNat < 32
          · rw [readChar_bare_control c _ hc] at h
            cases h
          · rw [readChar_plain c _ hb hc] at h
            obtain ⟨p, hp, he⟩ := Option.map_eq_some_iff.mp h
            cases he
            intro d hd
            rcases List.mem_cons.mp hd with rfl | hd
            · exact ⟨hq, hc⟩
            · exact ih fuel hp d hd

section
variable (name : Name) (hv : name.Valid) (keyidLen : UInt64) (location : String)
include hv

theorem initLine_of_bare (h : ∀ c ∈ location.toList, Bare c) :
    initLine name keyidLen location = write escape
      [("keyid", .str name.keyid), ("keyid_len", .num keyidLen.toNat),
        ("name", .str name.toString), ("key_storage", .str location)] := by
  apply String.toList_injective
  rw [initLine_eq name hv, flatMap_escapeBackslash _ h]
  unfold write
  simp [member_str, member_num]

/-- The line of `init` is read as what it stands for exactly if the place of the key
is bare. -/
theorem initLine_reads_iff : JsonText.read (initLine name keyidLen location) =
      some [("keyid", .str name.keyid), ("keyid_len", .num keyidLen.toNat),
        ("name", .str name.toString), ("key_storage", .str location)] ↔
    ∀ c ∈ location.toList, Bare c := by
  constructor
  · intro h
    have htext := initLine_eq name hv keyidLen location
    obtain ⟨fuel, rest, hmembers⟩ := readMembers_of_read _ _ _ htext h
    obtain ⟨_, _, hmembers, he⟩ := readMembers_after escape escapes_escape _ _ _ _ _ hmembers
    cases he
    obtain ⟨_, _, hmembers, he⟩ := readMembers_after escape escapes_escape _ _ _ _ _ hmembers
    cases he
    obtain ⟨_, _, hmembers, he⟩ := readMembers_after escape escapes_escape _ _ _ _ _ hmembers
    cases he
    obtain ⟨body, after, hbody, hhead⟩ :=
      head_of_readMembers escape escapes_escape _ _ _ _ _ hmembers
    have hlocation : String.ofList body = location := by
      cases hhead
      rfl
    rw [← hlocation, String.toList_ofList] at hbody ⊢
    exact bare_of_readString body after _ _ hbody
  · intro h
    rw [initLine_of_bare name hv keyidLen location h]
    exact read_write escape escapes_escape _

end

theorem bare_of_all (l : List Char)
    (h : (l.all fun c => c != '"' && decide (32 ≤ c.toNat)) = true) : ∀ c ∈ l, Bare c := by
  intro c hc
  have hall := List.all_eq_true.mp h c hc
  simp only [Bool.and_eq_true, bne_iff_ne, decide_eq_true_eq] at hall
  exact ⟨hall.1, by omega⟩

theorem bare_keyPath (dir : String) :
    (∀ c ∈ (keyPath dir).toList, Bare c) ↔ ∀ c ∈ dir.toList, Bare c := by
  have hfile : ∀ c ∈ KEY_FILE.toList, Bare c := bare_of_all _ (by decide)
  have hslash : Bare '/' := by
    unfold Bare
    decide
  have hparts : ∀ c ∈ (keyPath dir).toList, c ∈ dir.toList ∨ c = '/' ∨ c ∈ KEY_FILE.toList := by
    intro c hc
    unfold keyPath joinPath at hc
    split at hc
    · exact Or.inr (Or.inr hc)
    · split at hc <;> simp only [String.toList_append, List.mem_append] at hc
      · exact hc.imp_right Or.inr
      · rcases hc with (hc | hc) | hc
        · exact Or.inl hc
        · exact Or.inr (Or.inl (List.mem_singleton.mp hc))
        · exact Or.inr (Or.inr hc)
  constructor
  · intro h c hc
    apply h
    unfold keyPath joinPath
    split
    · next hnone =>
      rw [List.getLast?_eq_none_iff.mp hnone] at hc
      cases hc
    · split <;> simp only [String.toList_append, List.mem_append]
      · exact Or.inl hc
      · exact Or.inl (Or.inl hc)
  · intro h c hc
    rcases hparts c hc with hc | rfl | hc
    · exact h c hc
    · exact hslash
    · exact hfile c hc

section
variable [Crates] (dir : String)

/-- **What `--json` prints is what was told**, and reads so, in every run: exactly if
the place of the key is not a path in a directory whose name has a quote or a
control character. -/
theorem printed_reads_iff (store : Keystore) (l : List CliStep) (p : Nat) (out : Output)
    (line : String) (members : List (String × Value))
    (hp : (Run.run (Profile.step dir) (Profile.start store) l).procs p = .ended (.ok out))
    (hprinted : out.printed = some (line, members)) :
    JsonText.read line = some members ↔
      ((∃ args name, out = .initialized args name (keyPath dir)) → ∀ c ∈ dir.toList, Bare c) := by
  have hvalid := outputs_run dir
    (fun out => (∀ args name location, out = .initialized args name location →
        name.Valid ∧ (location = "OS keyring" ∨ location = keyPath dir)) ∧
      ∀ args len name, out = .named args len name → name.Valid)
    ?_ ?_ (by simp) (by simp) (by simp) store l p out hp
  · cases out with
    | initialized args name location =>
      cases hprinted
      obtain ⟨hv, hlocation⟩ := hvalid.1 args name location rfl
      rw [initLine_reads_iff name hv]
      constructor
      · rintro hbare ⟨_, _, ⟨⟩⟩
        exact (bare_keyPath dir).mp hbare
      · intro hdir
        rcases hlocation with rfl | rfl
        · exact bare_of_all _ (by decide)
        · exact (bare_keyPath dir).mpr (hdir ⟨args, name, rfl⟩)
    | named args len name =>
      cases hprinted
      refine iff_of_true ?_ (by rintro ⟨_, _, ⟨⟩⟩)
      rw [nameLine_eq name (hvalid.2 args len name rfl)]
      exact read_write escape escapes_escape _
    | _ => cases hprinted
  · intro args id name location _ hname hlocation
    refine ⟨?_, by rintro _ _ _ ⟨⟩⟩
    rintro _ _ _ ⟨⟩
    exact ⟨(fromPubkey_valid _ _ _ name hname).1, hlocation⟩
  · intro id args len name hname
    refine ⟨by rintro _ _ _ ⟨⟩, ?_⟩
    rintro _ _ _ ⟨⟩
    exact (fromPubkey_valid _ _ _ name hname).1

end

namespace Sample
attribute [local instance] crates

def quotedDir : String := "/home/al\"ice/mc-tunnel"

/-- The keyring refuses the secret. -/
def refused : List CliStep := calls 0 3 ++ .go 0 ⟨false, 0⟩ :: calls 0 4

theorem initialized_file :
    (Run.run (Profile.step quotedDir) (Profile.start emptyStore) (grinds refused)).procs 0 =
      .ended (.ok (.initialized aliceInit ⟨"", aliceKeyid⟩ (keyPath quotedDir))) :=
  initialized_grinds quotedDir _ _ fun _ => rfl

end Sample

section
attribute [local instance] Sample.crates

/-- The place is in the keyring, or a path with a quote. -/
theorem printed_reads_alice :
    JsonText.read (initLine ⟨"", Sample.aliceKeyid⟩ 16 "OS keyring") =
      some [("keyid", .str Sample.aliceKeyid), ("keyid_len", .num 16),
        ("name", .str (Name.toString ⟨"", Sample.aliceKeyid⟩)), ("key_storage", .str "OS keyring")] ∧
    JsonText.read (initLine ⟨"", Sample.aliceKeyid⟩ 16 (keyPath Sample.quotedDir)) ≠
      some [("keyid", .str Sample.aliceKeyid), ("keyid_len", .num 16),
        ("name", .str (Name.toString ⟨"", Sample.aliceKeyid⟩)),
        ("key_storage", .str (keyPath Sample.quotedDir))] := by
  constructor
  · exact (printed_reads_iff Sample.quotedDir Sample.emptyStore (Sample.grinds (Sample.calls 0 7)) 0
      (.initialized Sample.aliceInit ⟨"", Sample.aliceKeyid⟩ "OS keyring") _ _
      (Sample.initialized_keyring Sample.quotedDir) rfl).mpr
      fun ⟨_, _, h⟩ => absurd (Output.initialized.inj h).2.2 (by decide)
  · intro hread
    have hbare := (printed_reads_iff Sample.quotedDir Sample.emptyStore
      (Sample.grinds Sample.refused) 0
      (.initialized Sample.aliceInit ⟨"", Sample.aliceKeyid⟩ (keyPath Sample.quotedDir)) _ _
      Sample.initialized_file rfl).mp hread ⟨_, _, rfl⟩ '"' (by decide)
    exact hbare.1 rfl

end

end McTunnel
