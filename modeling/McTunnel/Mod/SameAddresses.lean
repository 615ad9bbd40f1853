import McTunnel.Cli.SameTunnel
import McTunnel.Mod.AgentClient

/-!
# One address, three recognisers (`AddressResolverMixin.java`, `TunnelPing.java`, `name.rs`)

The hook and the poller look for the ending `.minecraft` in what Java makes of a
text in lowercase, in the default locale; the poller looks at the whole entry, a
port included.  The agent lowers ASCII only, and knows no ports.

    the MOD recognises an address as the agent does ↔
      the entry has no port, and its ending no Turkic I                 (recognised_iff)
-/

namespace McTunnel

open JavaText Text

/-- A server-list entry and its host: what comes before the final colon. -/
inductive ServerEntry : String → String → Prop
  | bare (host : String) : ':' ∉ host.toList → ServerEntry host host
  | withPort (host port : String) : ':' ∉ port.toList → ServerEntry (host ++ ":" ++ port) host

/-- The language has a dotless i, and an ending in capitals one, too. -/
def DotlessEnding (locale : JavaLocale) (host : String) : Prop :=
  locale.Turkic ∧ 'I' ∈ host.toList.drop (host.toList.length - 10)

/-! ## The ending of an address -/

theorem ascii_of_lower (c : Char) (h : isBase32Lower (lower c) = true ∨ lower c = '.') :
    c.toNat < 128 := by
  by_cases hc : 'A' ≤ c ∧ c ≤ 'Z'
  · have hz : c.toNat ≤ 90 := hc.2
    omega
  · have hlower : lower c = c := if_neg hc
    rw [hlower, isBase32Lower_iff] at h
    rcases h with h | rfl
    · omega
    · decide

/-- A host that the agent accepts: ASCII, and `.minecraft` in any case at its end. -/
theorem host_of_parse (host : String) (n : Name) (hn : Name.parse host = .ok n)
    (hw : trim host = host) : (∀ c ∈ host.toList, c.toNat < 128) ∧
      (host.toList.drop (host.toList.length - 10)).map lower = ".minecraft".toList := by
  have haddr := address_of_parse host n hn
  have hlist : (normalize host).toList = host.toList.map lower := by
    unfold normalize toAsciiLowercase
    rw [hw, String.toList_ofList]
  constructor
  · intro c hc
    apply ascii_of_lower
    by_cases hdot : lower c = '.'
    · exact Or.inr hdot
    · refine Or.inl (chars_of_address _ n haddr _ ?_ hdot)
      rw [hlist]
      exact List.mem_map_of_mem hc
  · have hend : ∃ start, (normalize host).toList = start ++ ".minecraft".toList := by
      generalize normalize host = t at haddr
      cases haddr with
      | bare keyid _ => exact ⟨keyid.toList, by simp [SUFFIX]⟩
      | labelled vanity keyid _ _ => exact ⟨vanity.toList ++ '.' :: keyid.toList, by simp [SUFFIX]⟩
    obtain ⟨start, hstart⟩ := hend
    rw [hlist] at hstart
    have hlen := congrArg List.length hstart
    rw [List.length_map, List.length_append] at hlen
    have hten : ".minecraft".toList.length = 10 := by decide
    rw [List.map_drop, hstart, List.drop_left' (by omega)]

/-- Nothing with a colon is an address. -/
theorem parse_colon (s : String) (n : Name) (h : ':' ∈ s.toList) : Name.parse s ≠ .ok n := by
  intro hn
  have hmem : ':' ∈ (normalize s).toList := by
    unfold normalize toAsciiLowercase
    rw [String.toList_ofList]
    exact List.mem_map.mpr ⟨':', mem_trim s ':' h (by decide), by decide⟩
  have hbad := chars_of_address _ n (address_of_parse s n hn) ':' hmem (by decide)
  exact absurd hbad (by decide)

section
variable [CharacterData] (locale : JavaLocale)

theorem endsWith_iff (host : String) (n : Name) (hn : Name.parse host = .ok n)
    (hw : trim host = host) : endsWith (toLowerCase locale host) ".minecraft" = true ↔
      ¬ DotlessEnding locale host := by
  obtain ⟨hascii, hend⟩ := host_of_parse host n hn hw
  have hten : ".minecraft".toList.length = 10 := by decide
  unfold endsWith DotlessEnding
  rw [decide_eq_true_eq, toLowerCase_ascii locale host hascii]
  generalize hstart : host.toList.take (host.toList.length - 10) = start
  generalize hlast : host.toList.drop (host.toList.length - 10) = last at hend ⊢
  have hsplit : host.toList = start ++ last := by
    rw [← hstart, ← hlast, List.take_append_drop]
  have hlen : last.length = 10 := by
    rw [← hten, ← hend, List.length_map]
  have hsuffix : ".minecraft".toList <:+ host.toList.map (lowerAscii locale) ↔
      last.map (lowerAscii locale) = ".minecraft".toList := by
    rw [hsplit, List.map_append]
    constructor
    · intro h
      have h' := List.suffix_of_suffix_length_le h (List.suffix_append _ _)
        (by rw [hten, List.length_map, hlen])
      exact (h'.eq_of_length (by rw [hten, List.length_map, hlen])).symm
    · intro h
      rw [← h]
      exact List.suffix_append _ _
  rw [hsuffix]
  constructor
  · rintro h ⟨ht, hi⟩
    have hmem := List.mem_map_of_mem (f := lowerAscii locale) hi
    have hdotless : lowerAscii locale 'I' = dotlessI := if_pos ⟨ht, rfl⟩
    rw [h, hdotless] at hmem
    exact absurd hmem (by decide)
  · intro h
    rw [← hend]
    apply List.map_congr_left
    intro c hc
    apply if_neg
    rintro ⟨ht, rfl⟩
    exact h ⟨ht, hc⟩

/-! ## The MOD and the agent -/

variable [Libp2p]

/-- The MOD recognises an entry as the agent does. -/
structure Recognised (entry host : String) : Prop where
  /-- the hook takes the host over, whatever it hears from the agent -/
  taken : ∀ endpoint exchange, ∃ address,
    AddressResolverMixin.resolve locale endpoint exchange (some host) = .returned address
  /-- the poller asks for a text with the key of the hook's request -/
  sameKey : ∃ name,
    TunnelPing.currentTunnelName locale (some ⟨true, some (some entry)⟩) = some name ∧
      ∀ e : Endpoint, ∃ key,
        (handleRequest e.token (AgentClient.rttRequest e name)).key = some key ∧
        (handleRequest e.token (AgentClient.resolveRequest e host)).key = some key

omit [CharacterData] in
theorem key_rttRequest_iff (e : Endpoint) (name key : String) :
    (handleRequest e.token (AgentClient.rttRequest e name)).key = some key ↔
      ∃ n, Name.parse name = .ok n ∧ n.toString = key :=
  key_handleRequest_iff e.token _ ⟨Or.inr rfl, rfl⟩ key

omit [CharacterData] in
theorem key_resolveRequest_iff (e : Endpoint) (name key : String) :
    (handleRequest e.token (AgentClient.resolveRequest e name)).key = some key ↔
      ∃ n, Name.parse name = .ok n ∧ n.toString = key :=
  key_handleRequest_iff e.token _ ⟨Or.inl rfl, rfl⟩ key

omit [Libp2p] in
theorem currentTunnelName_iff (entry name : String) :
    TunnelPing.currentTunnelName locale (some ⟨true, some (some entry)⟩) = some name ↔
      endsWith (toLowerCase locale entry) ".minecraft" = true ∧ entry = name := by
  unfold TunnelPing.currentTunnelName
  dsimp only
  rw [if_neg (by decide)]
  cases endsWith (toLowerCase locale entry) ".minecraft" with
  | false => simp
  | true => simp

/-- **The MOD and the agent recognise the same addresses** exactly when the entry
has no port, and its ending no capital I in a language with a dotless one. -/
theorem recognised_iff (entry host : String) (n : Name) (hentry : ServerEntry entry host)
    (hn : Name.parse host = .ok n) (hw : trim host = host) :
    Recognised locale entry host ↔ entry = host ∧ ¬ DotlessEnding locale host := by
  constructor
  · intro h
    obtain ⟨name, hname, hkeys⟩ := h.sameKey
    obtain ⟨hends, rfl⟩ := (currentTunnelName_iff locale entry name).mp hname
    have hcolon : ':' ∉ entry.toList := by
      intro hc
      obtain ⟨key, hrtt, -⟩ := hkeys ⟨1, "t", by decide, by decide, by decide⟩
      obtain ⟨n', hn', -⟩ := (key_rttRequest_iff _ entry key).mp hrtt
      exact parse_colon entry n' hc hn'
    cases hentry with
    | bare _ _ => exact ⟨rfl, (endsWith_iff locale entry n hn hw).mp hends⟩
    | withPort _ port _ => exact absurd (by simp) hcolon
  · rintro ⟨rfl, hdot⟩
    have hends := (endsWith_iff locale entry n hn hw).mpr hdot
    constructor
    case taken =>
      intro endpoint exchange
      obtain ⟨address, hr, -⟩ := resolve_returned locale endpoint exchange entry hends
      exact ⟨address, hr⟩
    case sameKey =>
      refine ⟨entry, (currentTunnelName_iff locale entry entry).mpr ⟨hends, rfl⟩, ?_⟩
      intro e
      exact ⟨n.toString, (key_rttRequest_iff e entry _).mpr ⟨n, hn, rfl⟩,
        (key_resolveRequest_iff e entry _).mpr ⟨n, hn, rfl⟩⟩

end

/-! ## An ending in capitals, and a port -/

namespace Sample

/-- The tables as far as ASCII and the dot above go. -/
@[reducible] def characterData : CharacterData where
  toLowerCase := lower
  combiningClass c := if c = dotAbove then 230 else 0
  finalCased _ _ := false
  digit c := if c.isDigit = true then some (c.toNat - '0'.toNat) else none
  toLowerCase_ascii _ _ := rfl
  combiningClass_ascii c h := if_neg (ne_of_ascii c dotAbove h (by decide))
  digit_ascii _ h := if_pos h

def turkish : JavaLocale := ⟨"tr"⟩

def english : JavaLocale := ⟨"en"⟩

end Sample

section
attribute [local instance] Sample.characterData Sample.libp2p

/-- Under a Turkish locale the hook passes an address in capitals on, whatever
the agent would say; and in any language the poller does not know an entry with a port. -/
theorem recognition_fails :
    ((∀ endpoint exchange, AddressResolverMixin.resolve Sample.turkish endpoint exchange
        (some "ABCDEFGHIJKLMNOP.MINECRAFT") = .passed) ∧
      ¬ Recognised Sample.turkish "ABCDEFGHIJKLMNOP.MINECRAFT" "ABCDEFGHIJKLMNOP.MINECRAFT") ∧
    TunnelPing.currentTunnelName Sample.english
        (some ⟨true, some (some "abcdefghijklmnop.minecraft:25565")⟩) = none ∧
      ¬ Recognised Sample.english "abcdefghijklmnop.minecraft:25565"
        "abcdefghijklmnop.minecraft" := by
  have hpassed : ∀ endpoint exchange, AddressResolverMixin.resolve Sample.turkish endpoint exchange
      (some "ABCDEFGHIJKLMNOP.MINECRAFT") = .passed := by
    intro endpoint exchange
    rw [resolve_passed_iff]
    decide +kernel
  have hport : TunnelPing.currentTunnelName Sample.english
      (some ⟨true, some (some "abcdefghijklmnop.minecraft:25565")⟩) = none := by
    decide +kernel
  refine ⟨⟨hpassed, ?_⟩, hport, ?_⟩
  · intro h
    obtain ⟨address, hr⟩ := h.taken none fun _ _ _ => none
    rw [hpassed] at hr
    cases hr
  · intro h
    obtain ⟨name, hname, -⟩ := h.sameKey
    rw [hport] at hname
    cases hname

/-- The capital I of a keyid does no harm, in Turkish either. -/
theorem recognised_turkish :
    Recognised Sample.turkish "ABCDEFGHIJKLMNOP.minecraft" "ABCDEFGHIJKLMNOP.minecraft" :=
  (recognised_iff Sample.turkish "ABCDEFGHIJKLMNOP.minecraft" "ABCDEFGHIJKLMNOP.minecraft"
    ⟨"", "abcdefghijklmnop"⟩ (.bare _ (by decide)) (by decide +kernel) (by decide +kernel)).mpr
    ⟨rfl, fun h => absurd h.2 (by decide)⟩

end

end McTunnel
