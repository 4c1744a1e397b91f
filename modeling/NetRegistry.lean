import NetRegistry.Listing.Codec
import NetRegistry.Main
import NetRegistry.Proofs.Address.Laminar
import NetRegistry.Proofs.Address.Prefix
import NetRegistry.Proofs.Address.Word
import NetRegistry.Proofs.Cli.ExportFile
import NetRegistry.Proofs.Cli.Opening
import NetRegistry.Proofs.Condition.Rendered
import NetRegistry.Proofs.Condition.Shape
import NetRegistry.Proofs.Config.Names
import NetRegistry.Proofs.Config.Written
import NetRegistry.Proofs.Cover.Refusal
import NetRegistry.Proofs.Cover.Shape
import NetRegistry.Proofs.Cover.Unordered
import NetRegistry.Proofs.Listing.Arrival
import NetRegistry.Proofs.Listing.Broken
import NetRegistry.Proofs.Listing.Compiled
import NetRegistry.Proofs.Listing.Membership
import NetRegistry.Proofs.Rebuild.FetchMode
import NetRegistry.Proofs.Rebuild.Passed
import NetRegistry.Proofs.Rebuild.Refresh
import NetRegistry.Proofs.Rebuild.Repeated
import NetRegistry.Proofs.Service.Counted
import NetRegistry.Proofs.Service.Export
import NetRegistry.Proofs.Service.Inserts
import NetRegistry.Proofs.Service.Links
import NetRegistry.Proofs.Service.Members
import NetRegistry.Proofs.Service.Mirror
import NetRegistry.Proofs.Service.OpenImport
