import Pos2.Loader.Downloads
import Pos2.Loader.Handing

/-! Where an update cannot come through. A check that is offered a new version
always gets as far as its temporary link; a dangling one of an earlier check is
neither seen nor replaced. -/

namespace Pos2.Loader
open Calls

/-- What is stored of an image that is not extracted is all there, and can be unpacked. -/
def Sound (formats : Formats) (version : Text) (manifest : ImageManifest) (fs : Fs) : Prop :=
  fs (extractedDir ++ [version]) = none → ∀ layer ∈ manifest.layers, ∀ node, fs (blobsDir ++ [layer]) = some node →
    ∃ content, node = .file content ∧ (formats.entries content).2 = .ok ()

section
variable {formats : Formats} {registry : Registry} {state : Machine} {version : Text}

variable {reference current : Text} {manifest : ImageManifest}

end

/-- A registry that holds one version, in one layer. -/
def Registry.holding (version layer blob : Text) : Registry where
  manifests _ := (.image ⟨"c".toList, [layer]⟩, version)
  blobs _ := blob

end Pos2.Loader
