import Boot2Deb.Config.Accumulated
import Boot2Deb.Config.BootValues
import Boot2Deb.Config.BuildPoint
import Boot2Deb.Config.DataVolume
import Boot2Deb.Config.Kernel
import Boot2Deb.Config.Lineage
import Boot2Deb.Config.Packages
import Boot2Deb.Config.Records
import Boot2Deb.Config.Scaffold
import Boot2Deb.Config.UnreachableSuites
import Boot2Deb.Core.Authkeys
import Boot2Deb.Core.Datetime
import Boot2Deb.Core.Debcheck
import Boot2Deb.Core.FilesCompare
import Boot2Deb.Core.FilesOrder
import Boot2Deb.Core.FilesText
import Boot2Deb.Core.FilesWritable
import Boot2Deb.Core.Initramfs
import Boot2Deb.Core.Kconfig
import Boot2Deb.Core.NewerTags
import Boot2Deb.Core.Nuget
import Boot2Deb.Core.Outputs
import Boot2Deb.Core.Pins
import Boot2Deb.Core.Provenance
import Boot2Deb.Core.ProvenanceRecord
import Boot2Deb.Core.Sbom
import Boot2Deb.Debdep.RelationSyntax
import Boot2Deb.Debdep.Relations
import Boot2Deb.Debdep.Satisfaction
import Boot2Deb.Debdep.Status
import Boot2Deb.Debdep.Version
import Boot2Deb.Debdep.VersionOrder
import Boot2Deb.Engine.BoardConf
import Boot2Deb.Engine.BootReach
import Boot2Deb.Engine.CacheKey
import Boot2Deb.Engine.Console
import Boot2Deb.Engine.Debfile
import Boot2Deb.Engine.DotnetStore
import Boot2Deb.Engine.Elf
import Boot2Deb.Engine.ElfRunpath
import Boot2Deb.Engine.KmodDetermined
import Boot2Deb.Engine.LockGate
import Boot2Deb.Engine.Netfetch
import Boot2Deb.Engine.PatchDelta
import Boot2Deb.Engine.Rkboot
import Boot2Deb.Engine.RkbootDecode
import Boot2Deb.Engine.RootfsStore
import Boot2Deb.Engine.Sandbox
import Boot2Deb.Engine.SignatureDiff
import Boot2Deb.Engine.StoreHistory
import Boot2Deb.Engine.StoreSweep
import Boot2Deb.Engine.TreeReuse
import Boot2Deb.Engine.UserspaceHistory
import Boot2Deb.Engine.UserspacePass
import Boot2Deb.FirstBoot.DataVolumeReady
import Boot2Deb.FirstBoot.SeedApplied
import Boot2Deb.Image.Assembled
import Boot2Deb.Image.Depthcharge
import Boot2Deb.Image.Disk
import Boot2Deb.Image.Geometry
import Boot2Deb.Image.Layout
import Boot2Deb.Image.VbootResign
import Boot2Deb.Lib.Extent
import Boot2Deb.Mbox.BlankLines
import Boot2Deb.Mbox.Idempotent
import Boot2Deb.Mbox.Preservation
import Boot2Deb.Press.BoundOutputs
import Boot2Deb.Press.Fresh
import Boot2Deb.Press.Placeholders
import Boot2Deb.Press.Pressed
import Boot2Deb.Press.SeedAgreement
import Boot2Deb.Press.SeedRender
import Boot2Deb.Press.Streaming
import Boot2Deb.Resolve.Composition
import Boot2Deb.Selftest.Authored
import Boot2Deb.Series.Manifest
import Boot2Deb.Series.Spelling
import Boot2Deb.Series.Tag
import Boot2Deb.Series.Unreachable
import Boot2Deb.SizeCodec
