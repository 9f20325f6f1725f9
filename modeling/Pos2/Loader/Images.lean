import Pos2.Loader.Machine

/-! Images on disk, from `dockerloader/src/lib.rs`: manifests, blobs and
extracted trees, each brought to its final name by a rename. -/

namespace Pos2.Loader
open Calls

def dockerloaderDir : Path := ["data".toList, "dockerloader".toList]

def entrypointPath : Path := dockerloaderDir ++ ["entrypoint".toList]

def entrypointAttemptPath : Path := dockerloaderDir ++ ["entrypoint-attempt".toList]

def entrypointAttemptingPath : Path := dockerloaderDir ++ ["entrypoint-attempting".toList]

def updateAttemptFile : Path := dockerloaderDir ++ ["update-attempt".toList]

def restartExitCode : Int := 42

def storageDir : Path := dockerloaderDir ++ ["storage".toList, "v1".toList]

def blobsDir : Path := storageDir ++ ["blobs".toList]

def imagesDir : Path := storageDir ++ ["images".toList]

def extractedDir : Path := storageDir ++ ["extracted".toList]

/-- The entrypoint in the extracted tree of an image. -/
def entrypointOf (sha : Text) : Path := extractedDir ++ [sha, "entrypoint".toList]

def tmpName (uuid : Text) : Text := "tmp-".toList ++ uuid

def removingName (trimmed : Text) : Text := "removing-".toList ++ trimmed

/-- `tokio::fs::create_dir_all`, from the root down. -/
def createDirAll (path : Path) : Loads Unit :=
  path.inits.tail.forM fun dir => ask (.createDir dir)

/-- `tokio::fs::write` -/
def writeFile (path : Path) (text : Text) : Loads Unit := do
  ask (.create path)
  ask (.writeAll path text)

/-- `tokio::fs::remove_dir_all`, one entry at a time. -/
def removeDirAll (path : Path) : Loads Unit := do
  let below ← ask (.tree path)
  below.forM fun rest => ask (.remove (path ++ rest))

/-- `if let Ok(true) = try_exists(path).await` -/
def existsOk (path : Path) : Loads Bool := do
  match ← (ask (.exists_ path)).attempt with
  | .ok found => pure found
  | .error _ => pure false

def cleanTmpInDir (path : Path) : Loads Unit := do
  let names ← ask (.readDir path)
  names.forM fun oldName =>
    match oldName.stripPrefix "tmp-".toList with
    | none => pure ()
    | some trimmed => ask (.rename (path ++ [oldName]) (path ++ [removingName trimmed]))
  let names ← ask (.readDir path)
  names.forM fun name =>
    if ¬ "removing-".toList <+: name then pure () else do
      match ← (ask (.isDir (path ++ [name]))).attempt with
      | .error _ => pure ()
      | .ok true => removeDirAll (path ++ [name])
      | .ok false => ask (.removeFile (path ++ [name]))

def downloadLayer (image : Reference) (descriptor : Text) : Loads Path := do
  createDirAll blobsDir
  let finalPath := blobsDir ++ [descriptor]
  if ← existsOk finalPath then
    return finalPath
  let tmpPath := blobsDir ++ [tmpName (← ask .uuid)]
  let stream ← ask (.pullBlobStream image descriptor)
  ask (.create tmpPath)
  stream.forM fun result => do
    let chunk ← .ofExcept result
    let _ ← ask (.write tmpPath chunk)
  ask (.rename tmpPath finalPath)
  return finalPath

section
variable (formats : Formats)

def pullManifestMaybeBlob (reference : Reference) : Loads (Manifest × Text) := do
  match ← (ask (.pullManifest reference)).attempt with
  | .ok pulled => pure pulled
  | .error error =>
    match reference.digest with
    | none => .fail error
    | some digest => do
      let bytes ← ask (.pullBlob reference digest)
      let manifest ← .ofExcept (formats.readManifest bytes)
      pure (manifest, digest)

def downloadManifest (reference : Reference) : Loads (Reference × ImageManifest × Text) := do
  match ← pullManifestMaybeBlob formats reference with
  | (.image image, sha) => pure (reference, image, sha)
  | (.index none, _) => .fail "did not find image in manifest"
  | (.index (some digest), _) => do
    let newReference := { reference with digest := some digest }
    match ← pullManifestMaybeBlob formats newReference with
    | (.image image, sha) => pure (newReference, image, sha)
    | (.index _, _) => .fail "did not get image from entry?"

def downloadImage (reference : Reference) : Loads Text := do
  createDirAll imagesDir
  let tmpPath := imagesDir ++ [tmpName (← ask .uuid)]
  let (reference, manifest, sha) ← downloadManifest formats reference
  writeFile tmpPath (formats.toJson manifest)
  manifest.layers.forM fun layer => do
    let _ ← downloadLayer reference layer
  ask (.rename tmpPath (imagesDir ++ [sha]))
  return sha

/-- `archive.unpack`, entry by entry. -/
def unpackLayer (path : Path) (blob : Text) : Loads Unit := do
  let (entries, result) := formats.entries blob
  entries.forM fun entry => ask (.unpack path entry)
  .ofExcept result

def extractImage (sha : Text) : Loads Path := do
  let finalPath := extractedDir ++ [sha]
  if ← existsOk finalPath then
    return finalPath
  let tmpPath := extractedDir ++ [tmpName (← ask .uuid)]
  createDirAll tmpPath
  let manifestJson ← ask (.readToString (imagesDir ++ [sha]))
  let manifest ← .ofExcept (formats.readImage manifestJson)
  manifest.layers.forM fun layer => do
    let blob ← ask (.readToString (blobsDir ++ [layer]))
    unpackLayer formats tmpPath blob
  ask (.rename tmpPath finalPath)
  return finalPath

/-- The digests that a kept image refers to, if its manifest can be read. -/
def referencedBlobs (sha : Text) : Loads (List Text) := do
  match ← (ask (.readToString (imagesDir ++ [sha]))).attempt with
  | .error _ => pure []
  | .ok manifestJson =>
    match formats.readImage manifestJson with
    | .error _ => pure []
    | .ok manifest => pure (manifest.config :: manifest.layers)

/-- Remove every entry of a directory that is not kept; errors are passed over. -/
def sweep (dir : Path) (keep : List Text) (removeEntry : Path → Loads Unit) : Loads Unit := do
  match ← (ask (.readDir dir)).attempt with
  | .error _ => pure ()
  | .ok names => names.forM fun name =>
    if name ∈ keep then pure () else do
      let _ ← (removeEntry (dir ++ [name])).attempt

def cleanupStorage (keepShas : List Text) : Loads Unit := do
  [blobsDir, imagesDir, extractedDir].forM fun dir => do
    if ← existsOk dir then
      let _ ← (cleanTmpInDir dir).attempt
  let referenced ← keepShas.mapM (referencedBlobs formats)
  sweep extractedDir keepShas removeDirAll
  sweep imagesDir keepShas fun path => ask (.removeFile path)
  sweep blobsDir referenced.flatten fun path => ask (.removeFile path)

def downloadEntrypointInitial (reference : Text) : Loads Unit := do
  let reference ← .ofExcept (formats.parseReference reference)
  let sha ← downloadImage formats reference
  let extractedPath ← extractImage formats sha
  createDirAll dockerloaderDir
  ask (.symlink (.absolute (extractedPath ++ ["entrypoint".toList])) entrypointPath)

end
end Pos2.Loader
