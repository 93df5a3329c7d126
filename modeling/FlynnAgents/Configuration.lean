-- The configuration of an adapter (configuration.py): its settings as one canonical text,
-- and what its digest is taken of.
import FlynnAgents.Canonical
import FlynnAgents.DeepSeek

namespace FlynnAgents

open Text (ofString)
open JsonText (Tree joinTree)

/-! ## The constructor -/

/-- `settings_json` as `__post_init__` replaces it. -/
def canonicalSettings (settingsJson : Text) : Except Exn Text :=
  match loads settingsJson with
  | none =>
    .error (contractError "Inference configuration settings must be a finite JSON object")
  | some settings =>
    match settings.dumpsSorted with
    | none =>
      .error (contractError "Inference configuration settings must be a finite JSON object")
    | some canonical =>
      if settings.asDict.isSome then .ok canonical
      else .error (contractError "Inference configuration settings must be a JSON object")

/-- A configuration that its constructor accepted. -/
structure InferenceConfiguration where
  provider : Text
  model : Text
  protocol : Text
  settingsJson : Text
  named : blankText provider = false ∧ blankText model = false ∧ blankText protocol = false
  settled : ∃ settings, canonicalSettings settings = .ok settingsJson

/-- `isinstance(v, str) and v.strip()` -/
def nameOf : Dyn Text → Option {s : Text // blankText s = false}
  | .typed s => if h : blankText s = false then some ⟨s, h⟩ else none
  | .other => none

/-- `InferenceConfiguration(provider, model, protocol, settings_json)` -/
def InferenceConfiguration.create (provider model protocol : Dyn Text) (settingsJson : Text) :
    Except Exn InferenceConfiguration :=
  match nameOf provider, nameOf model, nameOf protocol with
  | some p, some m, some q =>
    match h : canonicalSettings settingsJson with
    | .ok canonical => .ok ⟨p, m, q, canonical, ⟨p.2, m.2, q.2⟩, ⟨settingsJson, h⟩⟩
    | .error e => .error e
  | _, _, _ =>
    .error (contractError "Inference configuration requires provider, model and protocol")

/-- `asdict(self)`, with its keys in order. -/
def InferenceConfiguration.record (c : InferenceConfiguration) : Tree :=
  .obj [(ofString "model", .str c.model), (ofString "protocol", .str c.protocol),
    (ofString "provider", .str c.provider), (ofString "settings_json", .str c.settingsJson)]

/-- What the digest is taken of. It is ASCII: its bytes are its code points. -/
def InferenceConfiguration.hashInput (c : InferenceConfiguration) :
    Except Exn Text := dumps c.record

/-- `sha256` -/
def InferenceConfiguration.sha256 (c : InferenceConfiguration) : Except Exn String :=
  c.hashInput.map fun payload => Sha256.hexdigest (payload.map Fin.val)

/-! ## What the constructor accepts -/

theorem nameOf_some {v : Dyn Text} {s : {s : Text // blankText s = false}} :
    nameOf v = some s ↔ v = .typed s.1 := by
  cases v with
  | typed t =>
    simp only [nameOf]
    split
    · rw [Option.some.injEq, Subtype.ext_iff, Dyn.typed.injEq]
    · rename_i h
      simp only [reduceCtorEq, false_iff, Dyn.typed.injEq]
      rintro rfl
      exact h s.2
  | other => simp [nameOf]

theorem create_configuration_ok {provider model protocol : Dyn Text} {settingsJson : Text}
    {c : InferenceConfiguration} :
    InferenceConfiguration.create provider model protocol settingsJson = .ok c ↔
      provider = .typed c.provider ∧ model = .typed c.model ∧ protocol = .typed c.protocol ∧
        canonicalSettings settingsJson = .ok c.settingsJson := by
  constructor
  · intro h
    unfold InferenceConfiguration.create at h
    split at h
    · rename_i p m q hp hm hq
      split at h
      · rename_i canonical hc
        cases h
        exact ⟨nameOf_some.mp hp, nameOf_some.mp hm, nameOf_some.mp hq, hc⟩
      · cases h
    · cases h
  · obtain ⟨p, m, q, canonical, named, settled⟩ := c
    rintro ⟨rfl, rfl, rfl, h⟩
    have hp : nameOf (.typed p) = some ⟨p, named.1⟩ := nameOf_some.mpr rfl
    have hm : nameOf (.typed m) = some ⟨m, named.2.1⟩ := nameOf_some.mpr rfl
    have hq : nameOf (.typed q) = some ⟨q, named.2.2⟩ := nameOf_some.mpr rfl
    unfold InferenceConfiguration.create
    rw [hp, hm, hq]
    simp only
    split
    · rename_i canonical' h'
      rw [h] at h'
      cases h'
      rfl
    · rename_i e h'
      rw [h] at h'
      cases h'

theorem canonicalSettings_ok {settingsJson canonical : Text} :
    canonicalSettings settingsJson = .ok canonical ↔ ∃ settings,
      loads settingsJson = some settings ∧ settings.dumpsSorted = some canonical ∧
        settings.asDict.isSome = true := by
  unfold canonicalSettings
  cases loads settingsJson with
  | none => simp
  | some settings =>
    simp only [Option.some.injEq, exists_eq_left']
    cases settings.dumpsSorted with
    | none => simp
    | some text => cases settings.asDict.isSome <;> simp

theorem asDict_sorted (v : Value Text) : v.sorted.asDict.isSome = v.asDict.isSome := by
  cases v <;> rfl

/-- The canonical text is canonical. -/
theorem canonicalSettings_fixed {settingsJson canonical : Text} (hs : Text.Plain settingsJson)
    (h : canonicalSettings settingsJson = .ok canonical) :
    canonicalSettings canonical = .ok canonical := by
  obtain ⟨settings, hloads, hdumps, hdict⟩ := canonicalSettings_ok.mp h
  obtain ⟨hu, hr⟩ := loads_readable hs hloads
  refine canonicalSettings_ok.mpr ⟨settings.sorted, loads_dumpsSorted hu hr hdumps, ?_, ?_⟩
  · rw [dumpsSorted_sorted, hdumps]
  · rw [asDict_sorted, hdict]

/-- Two texts have one canonical text exactly if they decode to the same object. -/
theorem canonicalSettings_eq_iff {s s' canonical canonical' : Text}
    (hs : Text.Plain s) (hs' : Text.Plain s')
    (h : canonicalSettings s = .ok canonical) (h' : canonicalSettings s' = .ok canonical') :
    canonical = canonical' ↔
      ∃ v w, loads s = some v ∧ loads s' = some w ∧ v.same w = true := by
  obtain ⟨v, hv, hdumps, -⟩ := canonicalSettings_ok.mp h
  obtain ⟨w, hw, hdumps', -⟩ := canonicalSettings_ok.mp h'
  obtain ⟨hvu, hvr⟩ := loads_readable hs hv
  obtain ⟨hwu, hwr⟩ := loads_readable hs' hw
  have hiff := dumpsSorted_eq_iff hvu hwu hvr hwr hdumps
  rw [hdumps', Option.some.injEq] at hiff
  constructor
  · rintro rfl
    exact ⟨v, w, hv, hw, hiff.mp rfl⟩
  · rintro ⟨v', w', hv', hw', hsame⟩
    rw [hv] at hv'
    rw [hw] at hw'
    cases hv'
    cases hw'
    exact (hiff.mpr hsame).symm

/-! ## The digest -/

theorem settings_plain (c : InferenceConfiguration) : Text.Plain c.settingsJson := by
  obtain ⟨settings, h⟩ := c.settled
  obtain ⟨v, -, hdumps, -⟩ := canonicalSettings_ok.mp h
  exact (dumpsSorted_ascii hdumps).plain

/-- The texts that name a configuration have no surrogates. -/
def InferenceConfiguration.NamesPlain (c : InferenceConfiguration) : Prop :=
  Text.Plain c.provider ∧ Text.Plain c.model ∧ Text.Plain c.protocol

theorem joinTree_record {c : InferenceConfiguration} (h : c.NamesPlain) :
    joinTree c.record = c.record := by
  have hjoin : ∀ {s : Text}, Text.Plain s → Text.joined s = s :=
    fun hs => (Text.joined_eq_iff _).mpr hs.not_hasPair
  unfold InferenceConfiguration.record
  simp only [joinTree, JsonText.joinFields, Text.joined_ofString, hjoin h.1, hjoin h.2.1,
    hjoin h.2.2, hjoin (settings_plain c)]

/-- The hash input says the four fields. -/
theorem hashInput_eq_iff {c c' : InferenceConfiguration} (h : c.NamesPlain) (h' : c'.NamesPlain) :
    c.hashInput = c'.hashInput ↔ c.provider = c'.provider ∧ c.model = c'.model ∧
      c.protocol = c'.protocol ∧ c.settingsJson = c'.settingsJson := by
  have hwritable : ∀ d : InferenceConfiguration, JsonText.writable d.record = true := fun d => rfl
  obtain ⟨text, ht⟩ : ∃ text, dumps c.record = .ok text := ⟨_, dumps_ok.mpr ⟨hwritable c, rfl⟩⟩
  have hrender := (dumps_ok.mp ht).2
  constructor
  · intro hsame
    have ht' : dumps c'.record = .ok text := hsame.symm.trans ht
    have hrender' := (dumps_ok.mp ht').2
    have hscan := @JsonText.scan_render JsonText.compact _ (hwritable c)
    rw [hrender, ← hrender', JsonText.scan_render (hwritable c'), joinTree_record h,
      joinTree_record h', Option.some.injEq] at hscan
    unfold InferenceConfiguration.record at hscan
    simp only [Tree.obj.injEq, List.cons.injEq, Prod.mk.injEq, Tree.str.injEq, true_and,
      and_true] at hscan
    exact ⟨hscan.2.2.1.symm, hscan.1.symm, hscan.2.1.symm, hscan.2.2.2.symm⟩
  · rintro ⟨hp, hm, hq, hs⟩
    unfold InferenceConfiguration.hashInput InferenceConfiguration.record
    rw [hp, hm, hq, hs]

/-- For two calls of the constructor that it accepts: what is stored is accepted as it is,
and the hash inputs agree exactly if the names do and the settings say one object. -/
theorem configuration_identified {p m q p' m' q' : Dyn Text} {s s' : Text}
    {c c' : InferenceConfiguration} (h : InferenceConfiguration.create p m q s = .ok c)
    (h' : InferenceConfiguration.create p' m' q' s' = .ok c') (hc : c.NamesPlain)
    (hc' : c'.NamesPlain) (hs : Text.Plain s) (hs' : Text.Plain s') :
    InferenceConfiguration.create p m q c.settingsJson = .ok c ∧
      (c.hashInput = c'.hashInput ↔ p = p' ∧ m = m' ∧ q = q' ∧
        ∃ v w, loads s = some v ∧ loads s' = some w ∧ v.same w = true) := by
  obtain ⟨rfl, rfl, rfl, hsettings⟩ := create_configuration_ok.mp h
  obtain ⟨rfl, rfl, rfl, hsettings'⟩ := create_configuration_ok.mp h'
  constructor
  · exact create_configuration_ok.mpr
      ⟨rfl, rfl, rfl, canonicalSettings_fixed hs hsettings⟩
  · rw [hashInput_eq_iff hc hc', canonicalSettings_eq_iff hs hs' hsettings hsettings']
    simp only [Dyn.typed.injEq]

end FlynnAgents
