import ReleaseInstaller.Command
import ReleaseInstaller.Main
import ReleaseInstaller.Files.Seed
import ReleaseInstaller.Net.Server
import ReleaseInstaller.Proofs.Procedure
import ReleaseInstaller.Proofs.Requests
import ReleaseInstaller.Proofs.Quiet
import ReleaseInstaller.Proofs.Protocol
import ReleaseInstaller.Proofs.Walk
import ReleaseInstaller.Proofs.Change
import ReleaseInstaller.Proofs.Failure
import ReleaseInstaller.Proofs.LiveBinary
import ReleaseInstaller.Proofs.Resolve
import ReleaseInstaller.Proofs.Success
import ReleaseInstaller.Proofs.VersionText
import ReleaseInstaller.Proofs.Listing
import ReleaseInstaller.Proofs.ReleasePage
import ReleaseInstaller.Proofs.Part
import ReleaseInstaller.Proofs.Uninstall
import ReleaseInstaller.Proofs.Reinstall
import ReleaseInstaller.Proofs.Confined
import ReleaseInstaller.Proofs.Selection
import ReleaseInstaller.Proofs.UpdateWords
import ReleaseInstaller.Proofs.UpdateVersion
import ReleaseInstaller.Proofs.Agreement
import ReleaseInstaller.Proofs.Distinct
import ReleaseInstaller.Proofs.FirstLink
import ReleaseInstaller.Proofs.Leftover
import ReleaseInstaller.Proofs.Twins
import ReleaseInstaller.Proofs.Contrast
import ReleaseInstaller.Proofs.Lockstep
import ReleaseInstaller.Proofs.FirstRequest
import ReleaseInstaller.Proofs.FinishInstall
import ReleaseInstaller.Proofs.RequestedVersion
import ReleaseInstaller.Proofs.Prereleases
import ReleaseInstaller.Proofs.VersionRecord
import ReleaseInstaller.Proofs.ChannelTag
import ReleaseInstaller.Proofs.ScriptLine
import ReleaseInstaller.Proofs.Ancestry
import ReleaseInstaller.Proofs.SearchPath
import ReleaseInstaller.Proofs.VersionGrammar
import ReleaseInstaller.Proofs.Streaming
import ReleaseInstaller.Proofs.Lineage
import ReleaseInstaller.Proofs.LastHyphen
